import AttestedVault.Proofs.Fetching

/-!
# The cache of certificates

What the clients of the key distribution service keep has passed their checks,
and it is enough to find a chip's key again while the service is away.
-/

namespace AttestedVault

/-! ## What is kept -/

namespace KdsClient

def setup (c : KdsClient) : KdsClient := { c with ask := none }

@[simp] theorem setup_vcek (c : KdsClient) (chip : Bytes) (tcb : TcbVersion) (net : Network) :
    (c.vcek chip tcb net).1.2.setup = c.setup := by
  obtain ⟨e, net₁, -, hv⟩ | ⟨ask, net₁, -, hv⟩ := c.vcek_cases chip tcb net
  · rw [hv]
  · rw [hv, setup, setup]

end KdsClient

structure Lookup where
  who : Nat
  chip : Bytes
  tcb : TcbVersion

/-- These bytes belong in the file at this place: they came with a successful answer, after this
many requests and for a certificate that is looked up, and they passed its checks. -/
inductive Vetted (c : KdsClient) (start : Nat) (run : List Lookup) (net : Network) (p : Disk.Place)
    (b : Bytes) : Prop
  | bundle {ask : Certificate} (hp : net.disk.locate c.chainPath = .ok p)
      (hb : net.Brought start c.chainUrl b) (ha : KdsClient.askOfBundle c.ark b = .ok ask)
  | certificate {l : Lookup} {ask : Certificate} {key : P384.Affine} (hl : l ∈ run)
      (hp : net.disk.locate (c.vcekPath l.chip l.tcb) = .ok p)
      (hb : net.Brought start (c.vcekUrl l.chip l.tcb) b) (hk : c.ark.chipKey ask b = .ok key)

/-- Every file is as it was, or it has got a content that was vetted. -/
def Vets (c : KdsClient) (run : List Lookup) (net net' : Network) : Prop :=
  ∀ p, net'.disk.file? p = net.disk.file? p ∨
    ∃ b, net'.disk.file? p = some b ∧ Vetted c net.requests.length run net' p b

section
variable {c : KdsClient} {run : List Lookup} {net net₁ net₂ : Network}

theorem Vetted.follows {start : Nat} {p : Disk.Place} {b : Bytes} (h : Vetted c start run net₁ p b)
    (hf : net₁.Follows net₂) : Vetted c start run net₂ p b := by
  cases h with
  | bundle hp hb ha => exact .bundle (hf.within.locate hp) (hb.follows hf) ha
  | certificate hl hp hb hk => exact .certificate hl (hf.within.locate hp) (hb.follows hf) hk

theorem Vetted.weaken {start start' : Nat} {run' : List Lookup} {p : Disk.Place} {b : Bytes}
    (h : Vetted c start run net p b) (hs : start' ≤ start) (hr : run ⊆ run') :
    Vetted c start' run' net p b := by
  cases h with
  | bundle hp hb ha => exact .bundle hp (hb.weaken hs) ha
  | certificate hl hp hb hk => exact .certificate (hr hl) hp (hb.weaken hs) hk

theorem Vets.refl (c : KdsClient) (run : List Lookup) (net : Network) : Vets c run net net :=
  fun _ => .inl rfl

theorem Vets.trans {run₁ run₂ : List Lookup} (h₁ : Vets c run₁ net net₁) (h₂ : Vets c run₂ net₁ net₂)
    (hf₁ : net.Follows net₁) (hf₂ : net₁.Follows net₂) (hr₁ : run₁ ⊆ run) (hr₂ : run₂ ⊆ run) :
    Vets c run net net₂ := by
  intro p
  obtain h₂ | ⟨b, hb, h₂⟩ := h₂ p
  · obtain h₁ | ⟨b, hb, h₁⟩ := h₁ p
    · exact .inl (h₂.trans h₁)
    · exact .inr ⟨b, h₂.trans hb, (h₁.follows hf₂).weaken (Nat.le_refl _) hr₁⟩
  · exact .inr ⟨b, hb, h₂.weaken hf₁.requests.length_le hr₂⟩

namespace KdsClient

theorem Fetching.file? {α : Type} {url path : String} {check : Bytes → Except AttestationError α}
    {r : Except AttestationError α} (h : Fetching c url path check net r net₁) (p : Disk.Place) :
    net₁.disk.file? p = net.disk.file? p ∨ ∃ b a, net.next? url = some b ∧ check b = .ok a ∧
      net₁.disk.locate path = .ok p ∧ net₁.disk.file? p = some b := by
  obtain hd | ⟨b, a, hb, ha, hd⟩ := h.disk
  · exact .inl (by rw [hd])
  · rw [hd]
    obtain hf | ⟨hl, hf⟩ := Disk.file?_writeIn net.disk c.cacheDir path b p
    · exact .inl hf
    · exact .inr ⟨b, a, hb, ha, hl, hf⟩

theorem vets_getAsk (c : KdsClient) (run : List Lookup) (net : Network) :
    Vets c.setup run net (c.getAsk net).2 := by
  cases hm : c.ask with
  | some ask =>
    rw [getAsk_of_some hm]
    exact .refl _ _ net
  | none =>
    intro p
    have hf := fetching_getAsk hm net
    obtain h | ⟨b, ask, hb, ha, hp, h⟩ := hf.file? p
    · exact .inl h
    · exact .inr ⟨b, h, .bundle hp (hf.asked_follows.brought hb) ha⟩

theorem vets_chipKeyWith (c : KdsClient) (ask : Certificate) (l : Lookup) (net : Network) :
    Vets c.setup [l] net (c.chipKeyWith ask l.chip l.tcb net).2 := by
  intro p
  have hf := c.fetching_chipKeyWith ask l.chip l.tcb net
  obtain h | ⟨b, key, hb, hk, hp, h⟩ := hf.file? p
  · exact .inl h
  · exact .inr ⟨b, h, .certificate List.mem_cons_self hp (hf.asked_follows.brought hb) hk⟩

theorem vets_vcek (c : KdsClient) (l : Lookup) (net : Network) :
    Vets c.setup [l] net (c.vcek l.chip l.tcb net).2 := by
  have hfirst := c.vets_getAsk [l] net
  have hf := c.follows_getAsk net
  obtain ⟨e, net₁, ha, hv⟩ | ⟨ask, net₁, ha, hv⟩ := c.vcek_cases l.chip l.tcb net
  · rw [ha] at hfirst
    rwa [hv]
  · rw [ha] at hfirst hf
    rw [hv]
    exact hfirst.trans (c.vets_chipKeyWith ask l net₁) hf (c.fetching_chipKeyWith ask _ _ net₁).follows
      (List.Subset.refl _) (List.Subset.refl _)

end KdsClient

/-- What may have become of the files: that of the bundle and those of the certificates are as
they were or have got what was brought for them and passed, and all others are as they were. -/
structure Curated (c : KdsClient) (run : List Lookup) (net net' : Network) : Prop where
  bundle : ∀ p, net'.disk.locate c.chainPath = .ok p → net'.disk.file? p = net.disk.file? p ∨
    ∃ b ask, net'.disk.file? p = some b ∧ net'.Brought net.requests.length c.chainUrl b ∧
      KdsClient.askOfBundle c.ark b = .ok ask
  certificate : ∀ chip tcb p, net'.disk.locate (c.vcekPath chip tcb) = .ok p →
    net'.disk.file? p = net.disk.file? p ∨
      ∃ b ask key, net'.disk.file? p = some b ∧
        net'.Brought net.requests.length (c.vcekUrl chip tcb) b ∧ c.ark.chipKey ask b = .ok key
  others : ∀ p, net'.disk.locate c.chainPath ≠ .ok p →
    (∀ l ∈ run, net'.disk.locate (c.vcekPath l.chip l.tcb) ≠ .ok p) →
    net'.disk.file? p = net.disk.file? p

theorem Vets.curated (h : Vets c run net net₁) : Curated c run net net₁ where
  bundle p hp := by
    obtain h | ⟨b, hf, hv⟩ := h p
    · exact .inl h
    · cases hv with
      | bundle _ hb ha => exact .inr ⟨b, _, hf, hb, ha⟩
      | certificate _ hp' => exact absurd hp' (c.apart_chainPath _ _ _ _ hp)
  certificate chip tcb p hp := by
    obtain h | ⟨b, hf, hv⟩ := h p
    · exact .inl h
    · cases hv with
      | bundle hp' => exact absurd hp (c.apart_chainPath _ _ _ _ hp')
      | @certificate l ask key _ hp' hb hk =>
        by_cases hl : (l.chip, l.tcb) = (chip, tcb)
        · obtain ⟨rfl, rfl⟩ := Prod.mk.inj hl
          exact .inr ⟨b, ask, key, hf, hb, hk⟩
        · exact absurd hp' (c.apart_vcekPath hl _ _ hp)
  others p hn hl := by
    obtain h | ⟨b, hf, hv⟩ := h p
    · exact h
    · cases hv with
      | bundle hp => exact absurd hp hn
      | certificate hr hp => exact absurd hp (hl _ hr)

end

/-! ## Runs of lookups -/

/-- Clients on one network and one disk. -/
structure KdsClients where
  client : Nat → KdsClient
  net : Network

namespace KdsClients

def start (settings : AttestationConfig) (ark : PinnedArk) (net : Network) : KdsClients :=
  ⟨fun _ => .withArk settings ark, net⟩

def answer (s : KdsClients) (l : Lookup) : Except AttestationError P384.Affine :=
  ((s.client l.who).vcek l.chip l.tcb s.net).1.1

def lookUp (s : KdsClients) (l : Lookup) : KdsClients :=
  let found := (s.client l.who).vcek l.chip l.tcb s.net
  ⟨fun w => if w = l.who then found.1.2 else s.client w, found.2⟩

def after (s : KdsClients) (run : List Lookup) : KdsClients := run.foldl lookUp s

@[simp] theorem net_lookUp (s : KdsClients) (l : Lookup) :
    (s.lookUp l).net = ((s.client l.who).vcek l.chip l.tcb s.net).2 := rfl

theorem client_lookUp_self (s : KdsClients) (l : Lookup) :
    (s.lookUp l).client l.who = ((s.client l.who).vcek l.chip l.tcb s.net).1.2 :=
  if_pos rfl

theorem forall_lookUp {P : Nat → KdsClient → Prop} {s : KdsClients} {l : Lookup}
    (hl : P l.who ((s.client l.who).vcek l.chip l.tcb s.net).1.2)
    (hs : ∀ w, w ≠ l.who → P w (s.client w)) (w : Nat) : P w ((s.lookUp l).client w) := by
  by_cases hw : w = l.who
  · subst hw
    rwa [client_lookUp_self]
  · have hc : (s.lookUp l).client w = s.client w := if_neg hw
    rw [hc]
    exact hs w hw

def Alike (s : KdsClients) (base : KdsClient) : Prop := ∀ w, (s.client w).setup = base

variable {s : KdsClients} {base : KdsClient}

theorem alike_start (settings : AttestationConfig) (ark : PinnedArk) (net : Network) :
    (start settings ark net).Alike (.withArk settings ark) :=
  fun _ => rfl

theorem Alike.lookUp (h : s.Alike base) (l : Lookup) : (s.lookUp l).Alike base :=
  forall_lookUp (P := fun _ c => c.setup = base) ((KdsClient.setup_vcek ..).trans (h l.who)) fun w _ => h w

theorem Alike.after (h : s.Alike base) (run : List Lookup) : (s.after run).Alike base := by
  induction run generalizing s with
  | nil => exact h
  | cons l run ih => exact ih (h.lookUp l)

theorem follows_lookUp (s : KdsClients) (l : Lookup) : s.net.Follows (s.lookUp l).net :=
  (s.client l.who).follows_vcek l.chip l.tcb s.net

theorem follows_after (s : KdsClients) (run : List Lookup) : s.net.Follows (s.after run).net := by
  induction run generalizing s with
  | nil => exact .refl _
  | cons l run ih => exact (s.follows_lookUp l).trans (ih (s.lookUp l))

theorem Alike.vets_after (h : s.Alike base) (run : List Lookup) :
    Vets base run s.net (s.after run).net := by
  induction run generalizing s with
  | nil => exact .refl _ _ _
  | cons l run ih =>
    have hv : Vets base [l] s.net (s.lookUp l).net :=
      h l.who ▸ (s.client l.who).vets_vcek l s.net
    exact hv.trans (ih (h.lookUp l)) (s.follows_lookUp l) ((s.lookUp l).follows_after run)
      (by simp) (List.subset_cons_self l run)

end KdsClients

/-! ## While the service is away -/

namespace KdsClient

def ChainKept (c : KdsClient) (disk : Disk) (ask : Certificate) : Prop :=
  ∃ b, disk.read c.chainPath = .ok b ∧ askOfBundle c.ark b = .ok ask

def KeyKept (c : KdsClient) (disk : Disk) (ask : Certificate) (chip : Bytes) (tcb : TcbVersion)
    (key : P384.Affine) : Prop :=
  ∃ b, disk.read (c.vcekPath chip tcb) = .ok b ∧ c.ark.chipKey ask b = .ok key

variable {c : KdsClient} {ask : Certificate} {chip : Bytes} {tcb : TcbVersion} {key : P384.Affine}
  {net net₁ : Network}

theorem chainKept_setup {disk : Disk} : c.setup.ChainKept disk ask ↔ c.ChainKept disk ask := Iff.rfl

theorem keyKept_setup {disk : Disk} :
    c.setup.KeyKept disk ask chip tcb key ↔ c.KeyKept disk ask chip tcb key := Iff.rfl

theorem keeps_getAsk (c : KdsClient) {other : String} (h : net.disk.Keeps c.cacheDir other) :
    (c.getAsk net).2.disk.Keeps c.cacheDir other := by
  cases hm : c.ask with
  | some ask => rwa [getAsk_of_some hm]
  | none => exact (fetching_getAsk hm net).keeps h

theorem keeps_vcek (c : KdsClient) {other : String} (h : net.disk.Keeps c.cacheDir other) (chip : Bytes)
    (tcb : TcbVersion) : (c.vcek chip tcb net).2.disk.Keeps c.cacheDir other := by
  have hk := c.keeps_getAsk h
  obtain ⟨e, net₁, ha, hv⟩ | ⟨ask, net₁, ha, hv⟩ := c.vcek_cases chip tcb net
  · rw [ha] at hk
    rwa [hv]
  · rw [ha] at hk
    rw [hv]
    exact (c.fetching_chipKeyWith ask chip tcb net₁).keeps hk

theorem ChainKept.chipKeyWith (h : c.ChainKept net.disk ask) (ask' : Certificate) (chip : Bytes)
    (tcb : TcbVersion) : c.ChainKept (c.chipKeyWith ask' chip tcb net).2.disk ask := by
  obtain ⟨b, hr, hb⟩ := h
  exact ⟨b, (c.fetching_chipKeyWith ask' chip tcb net).read (c.apart_chainPath chip tcb) hr, hb⟩

theorem KeyKept.chipKeyWith (h : c.KeyKept net.disk ask chip tcb key) (ask' : Certificate)
    {chip' : Bytes} {tcb' : TcbVersion} (hne : (chip', tcb') ≠ (chip, tcb)) :
    c.KeyKept (c.chipKeyWith ask' chip' tcb' net).2.disk ask chip tcb key := by
  obtain ⟨b, hr, hb⟩ := h
  exact ⟨b, (c.fetching_chipKeyWith ask' chip' tcb' net).read (c.apart_vcekPath hne) hr, hb⟩

section
variable (hk : net.disk.Keeps c.cacheDir c.chainPath)
  (hm : ∀ ask, c.ask = some ask → c.ChainKept net.disk ask)

include hk hm in
theorem chainKept_getAsk (h : c.getAsk net = (.ok ask, net₁)) : c.ChainKept net₁.disk ask := by
  cases ha : c.ask with
  | some ask' =>
    rw [getAsk_of_some ha] at h
    cases h
    exact hm ask ha
  | none =>
    have hf := fetching_getAsk ha net
    rw [h] at hf
    exact hf.found hk rfl

include hk hm in
theorem chainKept_vcek (chip : Bytes) (tcb : TcbVersion) (h : (c.vcek chip tcb net).1.2.ask = some ask) :
    c.ChainKept (c.vcek chip tcb net).2.disk ask := by
  obtain ⟨e, net₁, ha, hv⟩ | ⟨ask', net₁, ha, hv⟩ := c.vcek_cases chip tcb net
  · -- a client that remembers a certificate does not fail to get it
    rw [hv] at h
    rw [getAsk_of_some h] at ha
    cases ha
  · rw [hv] at h ⊢
    cases h
    exact (chainKept_getAsk hk hm ha).chipKeyWith ask chip tcb

end

theorem keyKept_vcek (hk : net.disk.Keeps c.cacheDir (c.vcekPath chip tcb))
    (h : (c.vcek chip tcb net).1.1 = .ok key) : ∃ ask, (c.vcek chip tcb net).1.2.ask = some ask ∧
      c.KeyKept (c.vcek chip tcb net).2.disk ask chip tcb key := by
  have hk₁ := c.keeps_getAsk hk
  obtain ⟨e, net₁, ha, hv⟩ | ⟨ask, net₁, ha, hv⟩ := c.vcek_cases chip tcb net
  · rw [hv] at h
    cases h
  · rw [ha] at hk₁
    rw [hv] at h ⊢
    exact ⟨ask, rfl, (c.fetching_chipKeyWith ask chip tcb net₁).found hk₁ h⟩

theorem vcek_away (hask : c.ask = none ∨ c.ask = some ask) (hc : c.ChainKept net.disk ask)
    (hf : (c.vcek chip tcb net).2.Failed net.requests.length) :
    (c.vcek chip tcb net).1.2.ask = some ask ∧ (c.vcek chip tcb net).2.disk = net.disk ∧
      ∀ key, c.KeyKept net.disk ask chip tcb key → (c.vcek chip tcb net).1.1 = .ok key := by
  obtain ⟨b, hr, hb⟩ := hc
  -- the intermediate certificate is remembered, or it is read from the bundle on the disk
  have hget : (c.getAsk net).1 = .ok ask ∧ (c.getAsk net).2.disk = net.disk := by
    obtain ha | ha := hask
    · have hg := fetching_getAsk ha net
      obtain ⟨hn, hkept⟩ := hg.away (hf.earlier (c.getAsk_follows_vcek chip tcb net))
      exact ⟨(hkept b hr).trans hb, by rw [hn]; rfl⟩
    · rw [getAsk_of_some ha]
      exact ⟨rfl, rfl⟩
  have hlen := (c.follows_getAsk net).requests.length_le
  have ha : c.getAsk net = (.ok ask, (c.getAsk net).2) := Prod.ext hget.1 rfl
  rw [vcek_of_ok ha] at hf ⊢
  obtain ⟨hn, hkept⟩ := (c.fetching_chipKeyWith ask chip tcb (c.getAsk net).2).away (hf.later hlen)
  refine ⟨rfl, ?_, ?_⟩
  · rw [hn]
    exact hget.2
  · rintro key ⟨b', hr', hb'⟩
    exact (hkept b' (hget.2 ▸ hr')).trans hb'

end KdsClient

namespace KdsClients

/-- Before the chip's key is found: only the first client has looked keys up,
and what it remembers is on the disk. -/
structure Ready (base : KdsClient) (first : Nat) (chip : Bytes) (tcb : TcbVersion) (s : KdsClients) :
    Prop where
  alike : s.Alike base
  bundle : s.net.disk.Keeps base.cacheDir base.chainPath
  certificate : s.net.disk.Keeps base.cacheDir (base.vcekPath chip tcb)
  fresh : ∀ w, w ≠ first → (s.client w).ask = none
  remembered : ∀ ask, (s.client first).ask = some ask → base.ChainKept s.net.disk ask

structure Stocked (base : KdsClient) (first : Nat) (chip : Bytes) (tcb : TcbVersion)
    (key : P384.Affine) (ask : Certificate) (s : KdsClients) : Prop where
  alike : s.Alike base
  first : (s.client first).ask = some ask
  others : ∀ w, (s.client w).ask = none ∨ (s.client w).ask = some ask
  bundle : base.ChainKept s.net.disk ask
  certificate : base.KeyKept s.net.disk ask chip tcb key

def Away (s : KdsClients) (l : Lookup) : Prop := (s.lookUp l).net.Failed s.net.requests.length

variable {s : KdsClients} {base : KdsClient} {first : Nat} {chip : Bytes} {tcb : TcbVersion}
  {key : P384.Affine} {ask : Certificate}

theorem Ready.lookUp (h : s.Ready base first chip tcb) {l : Lookup} (hl : l.who = first) :
    (s.lookUp l).Ready base first chip tcb := by
  subst hl
  have hb := h.alike l.who
  obtain ⟨ha, hk, hv, hf, hm⟩ := h
  subst hb
  exact {
    alike := ha.lookUp l
    bundle := (s.client l.who).keeps_vcek hk l.chip l.tcb
    certificate := (s.client l.who).keeps_vcek hv l.chip l.tcb
    fresh := forall_lookUp (P := fun w c => w ≠ l.who → c.ask = none) (fun h => absurd rfl h)
      fun w _ => hf w
    remembered := fun ask h => by
      rw [client_lookUp_self] at h
      exact KdsClient.chainKept_vcek (c := s.client l.who) hk hm l.chip l.tcb h }

theorem Ready.after (h : s.Ready base first chip tcb) {run : List Lookup}
    (hr : ∀ l ∈ run, l.who = first) : (s.after run).Ready base first chip tcb := by
  induction run generalizing s with
  | nil => exact h
  | cons l run ih =>
    exact ih (h.lookUp (hr l List.mem_cons_self)) fun l' hl => hr l' (List.mem_cons_of_mem l hl)

theorem Ready.stocked (h : s.Ready base first chip tcb) (ha : s.answer ⟨first, chip, tcb⟩ = .ok key) :
    ∃ ask, (s.lookUp ⟨first, chip, tcb⟩).Stocked base first chip tcb key ask := by
  have hb := h.alike first
  obtain ⟨hlike, hk, hv, hf, hm⟩ := h
  subst hb
  obtain ⟨ask, hask, hkey⟩ := KdsClient.keyKept_vcek (c := s.client first) hv ha
  exact ⟨ask, {
    alike := hlike.lookUp _
    first := (congrArg KdsClient.ask (client_lookUp_self s ⟨first, chip, tcb⟩)).trans hask
    others := forall_lookUp (P := fun _ c => c.ask = none ∨ c.ask = some ask) (.inr hask)
      fun w hw => .inl (hf w hw)
    bundle := KdsClient.chainKept_vcek (c := s.client first) hk hm chip tcb hask
    certificate := hkey }⟩

theorem Stocked.away (h : s.Stocked base first chip tcb key ask) {l : Lookup} (hl : s.Away l) :
    (s.lookUp l).Stocked base first chip tcb key ask ∧
      (l.chip = chip → l.tcb = tcb → s.answer l = .ok key) := by
  have hb := h.alike l.who
  obtain ⟨hlike, hfirst, hothers, hchain, hkey⟩ := h
  subst hb
  rw [KdsClient.chainKept_setup] at hchain
  rw [KdsClient.keyKept_setup] at hkey
  have hf : ((s.client l.who).vcek l.chip l.tcb s.net).2.Failed s.net.requests.length := hl
  obtain ⟨hask, hdisk, hanswer⟩ := KdsClient.vcek_away (hothers l.who) hchain hf
  refine ⟨{
    alike := hlike.lookUp l
    first := forall_lookUp (P := fun w c => w = first → c.ask = some ask) (fun _ => hask)
      (fun w _ hw => hw ▸ hfirst) first rfl
    others := forall_lookUp (P := fun _ c => c.ask = none ∨ c.ask = some ask) (.inr hask)
      fun w _ => hothers w
    bundle := ?_
    certificate := ?_ }, ?_⟩
  · rw [net_lookUp, hdisk, KdsClient.chainKept_setup]
    exact hchain
  · rw [net_lookUp, hdisk, KdsClient.keyKept_setup]
    exact hkey
  · rintro rfl rfl
    exact hanswer key hkey

theorem Stocked.other (h : s.Stocked base first chip tcb key ask) {l : Lookup} (hl : l.who = first)
    (hne : (l.chip, l.tcb) ≠ (chip, tcb)) : (s.lookUp l).Stocked base first chip tcb key ask := by
  subst hl
  have hb := h.alike l.who
  obtain ⟨hlike, hfirst, hothers, hchain, hkey⟩ := h
  subst hb
  have hv := KdsClient.vcek_of_ok (KdsClient.getAsk_of_some hfirst s.net) l.chip l.tcb
  have hask : ((s.client l.who).vcek l.chip l.tcb s.net).1.2.ask = some ask := by rw [hv]
  exact {
    alike := hlike.lookUp l
    first := (congrArg KdsClient.ask (client_lookUp_self s l)).trans hask
    others := forall_lookUp (P := fun _ c => c.ask = none ∨ c.ask = some ask) (.inr hask)
      fun w _ => hothers w
    bundle := by
      rw [net_lookUp, hv]
      exact KdsClient.ChainKept.chipKeyWith (c := s.client l.who) hchain ask l.chip l.tcb
    certificate := by
      rw [net_lookUp, hv]
      exact KdsClient.KeyKept.chipKeyWith (c := s.client l.who) hkey ask hne }

/-- The first client looks up other keys, and anyone anything while the service is away. -/
def Spares (first : Nat) (chip : Bytes) (tcb : TcbVersion) : KdsClients → List Lookup → Prop
  | _, [] => True
  | s, l :: run =>
    ((l.who = first ∧ (l.chip, l.tcb) ≠ (chip, tcb)) ∨ s.Away l) ∧
      Spares first chip tcb (s.lookUp l) run

theorem Stocked.after (h : s.Stocked base first chip tcb key ask) {run : List Lookup}
    (hr : s.Spares first chip tcb run) : (s.after run).Stocked base first chip tcb key ask := by
  induction run generalizing s with
  | nil => exact h
  | cons l run ih =>
    obtain ⟨⟨hl, hne⟩ | hl, hr⟩ := hr
    · exact ih (h.other hl hne) hr
    · exact ih (h.away hl).1 hr

/-- What a request brings is kept if it passes its check. If it does not, the lookup fails. It
ends with that request: nothing is kept, and what was kept before does not count. -/
structure Checks (s : KdsClients) (l : Lookup) : Prop where
  bundleKept : ∀ b ask, (s.client l.who).ask = none →
    s.net.next? (s.client l.who).chainUrl = some b →
    KdsClient.askOfBundle (s.client l.who).ark b = .ok ask →
      (s.client l.who).getAsk s.net = (.ok ask,
        s.net.kept (s.client l.who).chainUrl (s.client l.who).cacheDir (s.client l.who).chainPath b)
  bundleRefused : ∀ b e, (s.client l.who).ask = none →
    s.net.next? (s.client l.who).chainUrl = some b →
    KdsClient.askOfBundle (s.client l.who).ark b = .error e →
      s.answer l = .error e ∧ (s.lookUp l).net = s.net.asked (s.client l.who).chainUrl
  certificateKept : ∀ ask net b key, (s.client l.who).getAsk s.net = (.ok ask, net) →
    net.next? ((s.client l.who).vcekUrl l.chip l.tcb) = some b →
    (s.client l.who).ark.chipKey ask b = .ok key →
      s.answer l = .ok key ∧ (s.lookUp l).net = net.kept ((s.client l.who).vcekUrl l.chip l.tcb)
        (s.client l.who).cacheDir ((s.client l.who).vcekPath l.chip l.tcb) b
  certificateRefused : ∀ ask net b e, (s.client l.who).getAsk s.net = (.ok ask, net) →
    net.next? ((s.client l.who).vcekUrl l.chip l.tcb) = some b →
    (s.client l.who).ark.chipKey ask b = .error e →
      s.answer l = .error e ∧ (s.lookUp l).net = net.asked ((s.client l.who).vcekUrl l.chip l.tcb)

theorem checks (s : KdsClients) (l : Lookup) : s.Checks l where
  bundleKept b ask hask hb ha := by
    obtain ⟨hr, hn⟩ := (KdsClient.fetching_getAsk hask s.net).answered hb
    rw [ha] at hr hn
    exact Prod.ext hr hn
  bundleRefused b e hask hb he := by
    obtain ⟨hr, hn⟩ := (KdsClient.fetching_getAsk hask s.net).answered hb
    rw [he] at hr hn
    have hv := KdsClient.vcek_of_error (Prod.ext hr hn) l.chip l.tcb
    rw [answer, net_lookUp, hv]
    exact ⟨rfl, rfl⟩
  certificateKept ask net b key hask hb hk := by
    obtain ⟨hr, hn⟩ := ((s.client l.who).fetching_chipKeyWith ask l.chip l.tcb net).answered hb
    rw [hk] at hr hn
    rw [answer, net_lookUp, KdsClient.vcek_of_ok hask]
    exact ⟨hr, hn⟩
  certificateRefused ask net b e hask hb he := by
    obtain ⟨hr, hn⟩ := ((s.client l.who).fetching_chipKeyWith ask l.chip l.tcb net).answered hb
    rw [he] at hr hn
    rw [answer, net_lookUp, KdsClient.vcek_of_ok hask]
    exact ⟨hr, hn⟩

/-- Whatever is asked for and answered, on any disk: a file changes only to bytes that came with
a successful answer and passed their checks, and bytes that do not pass are refused. Once the
first client has found a chip's key, and the cache can be written, that client and every new
one find the same key while the service is away. -/
theorem cache_vetted_and_lasting (settings : AttestationConfig) (ark : PinnedArk) (net : Network) :
    let base := KdsClient.withArk settings ark
    let reached := fun before => (start settings ark net).after before
    (∀ before run, Curated base run (reached before).net ((reached before).after run).net) ∧
    (∀ before l, (reached before).Checks l) ∧
    ∀ first before chip tcb key, (∀ l ∈ before, l.who = first) →
      net.disk.Keeps base.cacheDir base.chainPath →
      net.disk.Keeps base.cacheDir (base.vcekPath chip tcb) →
      (reached before).answer ⟨first, chip, tcb⟩ = .ok key →
      let found := (reached before).lookUp ⟨first, chip, tcb⟩
      ∀ between, found.Spares first chip tcb between →
        ∀ who, (found.after between).Away ⟨who, chip, tcb⟩ →
          (found.after between).answer ⟨who, chip, tcb⟩ = .ok key := by
  intro base reached
  have hstart := alike_start settings ark net
  refine ⟨fun before run => ((hstart.after before).vets_after run).curated,
    fun before l => checks _ l, ?_⟩
  intro first before chip tcb key hfirst hbundle hcert hkey found between hbetween who haway
  have hready : (start settings ark net).Ready base first chip tcb := {
    alike := hstart
    bundle := hbundle
    certificate := hcert
    fresh := fun _ _ => rfl
    remembered := fun _ h => nomatch h }
  -- once the key is found, all that comes between leaves on the disk what it takes to find it again
  obtain ⟨ask, hstocked⟩ := (hready.after hfirst).stocked hkey
  exact ((hstocked.after hbetween).away haway).2 rfl rfl

/-- One certificate can be all of them: this one signs itself, so it goes for the root, for
the intermediate certificate and for that of any chip. -/
def selfSigned : Bytes :=
    Bytes.ofNat 40 0x308201283081b0a003020102020107300a06082a8648ce3d0403033000301e170d32333031303130 ++
    Bytes.ofNat 40 0x30303030305a170d3438303130313030303030305a30003076301006072a8648ce3d020106052b81 ++
    Bytes.ofNat 40 0x04002203620004dadee4f27bdbb2e0312dc2aad32c6231d2578503491e30961de1934c081240b65e ++
    Bytes.ofNat 40 0x43d91df75477e10cb1d1cbe1425c85f21ce24a28e362516a1967f45a3f3cc8f5827bd126df4a1b5e ++
    Bytes.ofNat 40 0x62c7789a6af63bfe7394b261b65d68c0a2a506eeecd3d2300a06082a8648ce3d0403030367003064 ++
    Bytes.ofNat 40 0x02302749ced79883cb0c0f4e344db7e8b630bcf5a3ce9c581bd24f272217ee827af1e492eec5b938 ++
    Bytes.ofNat 40 0x8c9bfbb55fb4dee336ce02300ab195aa01c4664bd0ceae497ed5ef0350559f46d2cd22b412a36daa ++
    Bytes.ofNat 20 0xaa197fcf0b8e6d588f3f02ee6e7aac369daef2ab

def selfKey : P384.Affine where
  x := 0xdadee4f27bdbb2e0312dc2aad32c6231d2578503491e30961de1934c081240b65e43d91df75477e10cb1d1cbe1425c85
  y := 0xf21ce24a28e362516a1967f45a3f3cc8f5827bd126df4a1b5e62c7789a6af63bfe7394b261b65d68c0a2a506eeecd3d2

theorem isSome_ofBytes_selfSigned : (PinnedArk.ofBytes selfSigned).toOption.isSome = true := by
  decide +kernel

def selfPinned : PinnedArk := (PinnedArk.ofBytes selfSigned).toOption.get isSome_ofBytes_selfSigned

def brief : Network where
  reply i _ := if i < 2 then some ⟨200, selfSigned⟩ else none
  requests := []
  disk := .empty

theorem failed_brief {net : Network} (h : brief.Follows net) {start : Nat} (hs : 2 ≤ start) :
    net.Failed start := by
  intro i url hi _
  have hr : brief.reply i url = none := if_neg (by omega)
  rw [h.body?, Network.body?, hr]

theorem eq_ok_of_toOption {ε α : Type} {r : Except ε α} {a : α} (h : r.toOption = some a) : r = .ok a := by
  cases r with
  | error e => cases h
  | ok b => exact congrArg Except.ok (Option.some.inj h)

theorem takes_brief {name : String} (short : name.utf8ByteSize ≤ Disk.maxName)
    (path : Disk.refusal? (joinPath "/var/cache/enclave/vcek" name) = none)
    (free : (brief.disk.createDirectories "/var/cache/enclave/vcek").1.isDirectory
      (["var", "cache", "enclave", "vcek"] ++ [name]) = false) :
    brief.disk.Takes "/var/cache/enclave/vcek" name :=
  ⟨by decide +kernel, short, path, ["var", "cache", "enclave", "vcek"], eq_ok_of_toOption (by decide +kernel),
    by decide +kernel, free, List.not_mem_nil⟩

theorem cache_vetted_and_lasting_brief :
    let found := (start .default selfPinned brief).lookUp ⟨0, [1], ⟨3, 0, 8, 115⟩⟩
    let later := found.after [⟨0, [2], ⟨3, 0, 8, 115⟩⟩]
    (start .default selfPinned brief).answer ⟨0, [1], ⟨3, 0, 8, 115⟩⟩ = .ok selfKey ∧
      later.Away ⟨1, [1], ⟨3, 0, 8, 115⟩⟩ ∧ later.answer ⟨1, [1], ⟨3, 0, 8, 115⟩⟩ = .ok selfKey := by
  intro found later
  have hbundle : brief.disk.Keeps _ (KdsClient.withArk .default selfPinned).chainPath :=
    KdsClient.keeps_chainPath (by decide) (takes_brief (by decide +kernel) (by decide +kernel) (by decide +kernel))
  have hcert : brief.disk.Keeps _ ((KdsClient.withArk .default selfPinned).vcekPath [1] ⟨3, 0, 8, 115⟩) :=
    KdsClient.keeps_vcekPath (takes_brief (by decide +kernel) (by decide +kernel) (by decide +kernel))
  have hkey : (start .default selfPinned brief).answer ⟨0, [1], ⟨3, 0, 8, 115⟩⟩ = .ok selfKey :=
    eq_ok_of_toOption (by decide +kernel)
  have hother : found.Spares 0 [1] ⟨3, 0, 8, 115⟩ [⟨0, [2], ⟨3, 0, 8, 115⟩⟩] :=
    ⟨.inl ⟨rfl, by decide⟩, trivial⟩
  have hlater : later.Away ⟨1, [1], ⟨3, 0, 8, 115⟩⟩ := by
    have hf := follows_lookUp (start .default selfPinned brief) ⟨0, [1], ⟨3, 0, 8, 115⟩⟩
    have hlen : found.net.requests.length = 2 := by decide +kernel
    exact failed_brief ((hf.trans (found.follows_after _)).trans (later.follows_lookUp _))
      (hlen ▸ (found.follows_after _).requests.length_le)
  exact ⟨hkey, hlater, (cache_vetted_and_lasting .default selfPinned brief).2.2 0 [] [1] ⟨3, 0, 8, 115⟩
    selfKey (fun _ h => nomatch h) hbundle hcert hkey [⟨0, [2], ⟨3, 0, 8, 115⟩⟩] hother 1 hlater⟩

end KdsClients

end AttestedVault
