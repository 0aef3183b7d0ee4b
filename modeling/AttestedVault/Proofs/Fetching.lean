import AttestedVault.Attestation.Kds
import AttestedVault.Proofs.CacheFiles

/-!
# Fetching certificates

A request is answered or it fails. What is fetched is checked and then kept; what
is kept is checked and used if a request fails.
-/

namespace AttestedVault

/-! ## Requests -/

namespace Network

def body? (net : Network) (number : Nat) (url : String) : Option Bytes :=
  match net.reply number url with
  | some r => if r.isSuccess then some r.body else none
  | none => none

def next? (net : Network) (url : String) : Option Bytes := net.body? net.requests.length url

def asked (net : Network) (url : String) : Network := { net with requests := net.requests ++ [url] }

def kept (net : Network) (url dir path : String) (b : Bytes) : Network :=
  { net.asked url with disk := net.disk.writeIn dir path b }

def Failed (net : Network) (start : Nat) : Prop :=
  ∀ i url, start ≤ i → net.requests[i]? = some url → net.body? i url = none

def Brought (net : Network) (start : Nat) (url : String) (b : Bytes) : Prop :=
  ∃ i, start ≤ i ∧ net.requests[i]? = some url ∧ net.body? i url = some b

/-- The one network has become the other by requests and new files. -/
structure Follows (net net' : Network) : Prop where
  reply : net'.reply = net.reply
  requests : net.requests <+: net'.requests
  within : net.disk.Within net'.disk

variable {net net' : Network} {url dir path : String}

theorem Follows.refl (net : Network) : net.Follows net := ⟨rfl, List.prefix_rfl, .refl _⟩

theorem Follows.trans {net₂ : Network} (h : net.Follows net') (h' : net'.Follows net₂) :
    net.Follows net₂ :=
  ⟨h'.reply.trans h.reply, h.requests.trans h'.requests, h.within.trans h'.within⟩

theorem follows_asked (net : Network) (url : String) : net.Follows (net.asked url) :=
  ⟨rfl, List.prefix_append _ _, .refl _⟩

theorem asked_follows_kept (net : Network) (url dir path : String) (b : Bytes) :
    (net.asked url).Follows (net.kept url dir path b) :=
  ⟨rfl, List.prefix_rfl, Disk.within_writeIn _ dir path b⟩

theorem Follows.body? (h : net.Follows net') (i : Nat) (url : String) :
    net'.body? i url = net.body? i url := by
  unfold Network.body?
  rw [h.reply]

theorem Follows.requested (h : (net.asked url).Follows net') :
    net'.requests[net.requests.length]? = some url := by
  obtain ⟨more, hm⟩ := h.requests
  rw [← hm]
  simp [asked]

theorem Failed.next? (h : net'.Failed net.requests.length) (hf : (net.asked url).Follows net') :
    net.next? url = none := by
  rw [Network.next?, ← ((follows_asked net url).trans hf).body?]
  exact h _ _ (Nat.le_refl _) hf.requested

theorem Follows.requests_getElem? (h : net.Follows net') {i : Nat} (hi : net.requests[i]? = some url) :
    net'.requests[i]? = some url := by
  obtain ⟨more, hm⟩ := h.requests
  rw [← hm]
  exact List.getElem?_append_left (List.getElem?_eq_some_iff.mp hi).1 ▸ hi

theorem Failed.earlier {start : Nat} (h : net'.Failed start) (hf : net.Follows net') :
    net.Failed start := by
  intro i url hi hu
  rw [← hf.body?]
  exact h i url hi (hf.requests_getElem? hu)

theorem Brought.follows {start : Nat} {b : Bytes} (h : net.Brought start url b) (hf : net.Follows net') :
    net'.Brought start url b := by
  obtain ⟨i, hi, hu, hb⟩ := h
  exact ⟨i, hi, hf.requests_getElem? hu, (hf.body? i url).trans hb⟩

theorem Brought.weaken {start start' : Nat} {b : Bytes} (h : net.Brought start url b)
    (hs : start' ≤ start) : net.Brought start' url b := by
  obtain ⟨i, hi, hu, hb⟩ := h
  exact ⟨i, Nat.le_trans hs hi, hu, hb⟩

theorem Follows.brought {b : Bytes} (h : (net.asked url).Follows net') (hb : net.next? url = some b) :
    net'.Brought net.requests.length url b :=
  ⟨_, Nat.le_refl _, h.requested, (((follows_asked net url).trans h).body? _ _).trans hb⟩

theorem Failed.later {start start' : Nat} (h : net.Failed start) (hs : start ≤ start') :
    net.Failed start' :=
  fun i url hi => h i url (Nat.le_trans hs hi)

end Network

namespace KdsClient

open Network

variable {c : KdsClient} {net : Network} {url path missing : String}

theorem fetch_of_some {b : Bytes} (h : net.next? url = some b) : fetch url net = (.ok b, net.asked url) := by
  unfold Network.next? Network.body? at h
  simp only [fetch, bind, StateT.bind, Network.get, asked]
  cases hr : net.reply net.requests.length url with
  | none => simp [hr] at h
  | some r =>
    simp only [hr] at h
    by_cases hs : r.isSuccess = true
    · simp only [hs, ↓reduceIte, Option.some.injEq] at h ⊢
      rw [h]
      rfl
    · simp [hs] at h

theorem fetch_of_none (h : net.next? url = none) : ∃ e, fetch url net = (.error e, net.asked url) := by
  unfold Network.next? Network.body? at h
  simp only [fetch, bind, StateT.bind, Network.get, asked]
  cases hr : net.reply net.requests.length url with
  | none => exact ⟨_, rfl⟩
  | some r =>
    simp only [hr] at h
    by_cases hs : r.isSuccess = true
    · simp [hs] at h
    · simp only [hs]
      exact ⟨_, rfl⟩

/-- What comes of looking behind a URL, and the network afterwards: what is
fetched is kept if it passes the check, and nothing stands in for it if not. -/
inductive Fetching {α : Type} (c : KdsClient) (url path : String)
    (check : Bytes → Except AttestationError α) (net : Network) :
    Except AttestationError α → Network → Prop
  | stored {b : Bytes} {a : α} (hb : net.next? url = some b) (ha : check b = .ok a) :
      Fetching c url path check net (.ok a) (net.kept url c.cacheDir path b)
  | refused {b : Bytes} {e : AttestationError} (hb : net.next? url = some b) (he : check b = .error e) :
      Fetching c url path check net (.error e) (net.asked url)
  | offline {b : Bytes} (hn : net.next? url = none) (hr : net.disk.read path = .ok b) :
      Fetching c url path check net (check b) (net.asked url)
  | missing {e : AttestationError} (hn : net.next? url = none) (hr : ∀ b, net.disk.read path ≠ .ok b) :
      Fetching c url path check net (.error e) (net.asked url)

section
variable {α : Type} {check : Bytes → Except AttestationError α}

theorem fetching (c : KdsClient) (url path missing : String)
    (check : Bytes → Except AttestationError α) (net : Network) :
    Fetching c url path check net (c.fetchOrKept url path missing check net).1
      (c.fetchOrKept url path missing check net).2 := by
  simp only [fetchOrKept, bind, StateT.bind, pure]
  cases hn : net.next? url with
  | some b =>
    rw [fetch_of_some hn]
    cases hc : check b with
    | ok a =>
      simp only [hc]
      exact .stored hn hc
    | error e =>
      simp only [hc]
      exact .refused hn hc
  | none =>
    obtain ⟨e, he⟩ := fetch_of_none hn
    rw [he]
    cases hr : net.disk.read path with
    | ok b =>
      simp only [StateT.bind, readFile, asked, hr]
      exact .offline hn hr
    | error err =>
      simp only [StateT.bind, readFile, asked, hr]
      exact .missing hn (by simp [hr])

variable {r : Except AttestationError α} {net' : Network}

theorem Fetching.asked_follows (h : Fetching c url path check net r net') :
    (net.asked url).Follows net' := by
  cases h with
  | stored => exact asked_follows_kept net url _ _ _
  | refused => exact .refl _
  | offline => exact .refl _
  | missing => exact .refl _

theorem Fetching.follows (h : Fetching c url path check net r net') : net.Follows net' :=
  (follows_asked net url).trans h.asked_follows

theorem Fetching.disk (h : Fetching c url path check net r net') : net'.disk = net.disk ∨
    ∃ b a, net.next? url = some b ∧ check b = .ok a ∧ net'.disk = net.disk.writeIn c.cacheDir path b := by
  cases h with
  | stored hb ha => exact .inr ⟨_, _, hb, ha, rfl⟩
  | refused => exact .inl rfl
  | offline => exact .inl rfl
  | missing => exact .inl rfl

theorem Fetching.keeps (h : Fetching c url path check net r net') {other : String}
    (hk : net.disk.Keeps c.cacheDir other) : net'.disk.Keeps c.cacheDir other := by
  obtain hd | ⟨b, -, -, -, hd⟩ := h.disk
  · rwa [hd]
  · rw [hd]
    exact hk.writeIn path b

theorem Fetching.read (h : Fetching c url path check net r net') {other : String} {b : Bytes}
    (ha : Disk.Apart other path) (hr : net.disk.read other = .ok b) : net'.disk.read other = .ok b := by
  obtain hd | ⟨b', -, -, -, hd⟩ := h.disk
  · rwa [hd]
  · rw [hd]
    exact Disk.read_writeIn ha hr

theorem Fetching.found (h : Fetching c url path check net r net')
    (hk : net.disk.Keeps c.cacheDir path) {a : α} (hr : r = .ok a) :
    ∃ b, net'.disk.read path = .ok b ∧ check b = .ok a := by
  cases h with
  | @stored b a' hb ha => exact ⟨b, hk b, by rw [ha, hr]⟩
  | refused => cases hr
  | @offline b hn hb => exact ⟨b, hb, hr⟩
  | missing => cases hr

theorem Fetching.answered (h : Fetching c url path check net r net') {b : Bytes}
    (hb : net.next? url = some b) : r = check b ∧
      net' = if (check b).isOk then net.kept url c.cacheDir path b else net.asked url := by
  cases h with
  | stored hb' ha =>
    rw [hb, Option.some.injEq] at hb'
    subst hb'
    rw [ha]
    exact ⟨rfl, rfl⟩
  | refused hb' he =>
    rw [hb, Option.some.injEq] at hb'
    subst hb'
    rw [he]
    exact ⟨rfl, rfl⟩
  | offline hn => simp [hn] at hb
  | missing hn => simp [hn] at hb

theorem Fetching.away (h : Fetching c url path check net r net')
    (hf : net'.Failed net.requests.length) :
    net' = net.asked url ∧ ∀ b, net.disk.read path = .ok b → r = check b := by
  have hn := hf.next? h.asked_follows
  cases h with
  | stored hb => simp [hn] at hb
  | refused hb => simp [hn] at hb
  | offline _ hr =>
    refine ⟨rfl, fun b hb => ?_⟩
    rw [hr, Except.ok.injEq] at hb
    rw [hb]
  | missing _ hr => exact ⟨rfl, fun b hb => absurd hb (hr b)⟩

end

/-! ## Looking keys up -/

theorem getAsk_of_some {ask : Certificate} (h : c.ask = some ask) (net : Network) :
    c.getAsk net = (.ok ask, net) := by
  simp only [getAsk, h]
  rfl

theorem fetching_getAsk (h : c.ask = none) (net : Network) :
    Fetching c c.chainUrl c.chainPath (askOfBundle c.ark) net (c.getAsk net).1 (c.getAsk net).2 := by
  simp only [getAsk, h]
  exact fetching ..

variable {net₁ : Network}

theorem vcek_of_error {e : AttestationError} (h : c.getAsk net = (.error e, net₁)) (chip : Bytes)
    (tcb : TcbVersion) : c.vcek chip tcb net = ((.error e, c), net₁) := by
  simp only [vcek, bind, StateT.bind, h]
  rfl

def chipKeyWith (c : KdsClient) (ask : Certificate) (chip : Bytes) (tcb : TcbVersion) :
    StateM Network (Except AttestationError P384.Affine) :=
  c.fetchOrKept (c.vcekUrl chip tcb) (c.vcekPath chip tcb) "VCEK" (c.ark.chipKey ask)

theorem vcek_of_ok {ask : Certificate} (h : c.getAsk net = (.ok ask, net₁)) (chip : Bytes)
    (tcb : TcbVersion) : c.vcek chip tcb net = (((c.chipKeyWith ask chip tcb net₁).1, { c with ask := some ask }),
      (c.chipKeyWith ask chip tcb net₁).2) := by
  simp only [vcek, bind, StateT.bind, h, pure]
  rfl

theorem fetching_chipKeyWith (c : KdsClient) (ask : Certificate) (chip : Bytes) (tcb : TcbVersion)
    (net : Network) : Fetching c (c.vcekUrl chip tcb) (c.vcekPath chip tcb) (c.ark.chipKey ask) net
      (c.chipKeyWith ask chip tcb net).1 (c.chipKeyWith ask chip tcb net).2 :=
  fetching ..

theorem follows_getAsk (c : KdsClient) (net : Network) : net.Follows (c.getAsk net).2 := by
  cases hm : c.ask with
  | some ask =>
    rw [getAsk_of_some hm]
    exact .refl net
  | none => exact (fetching_getAsk hm net).follows

theorem vcek_cases (c : KdsClient) (chip : Bytes) (tcb : TcbVersion) (net : Network) :
    (∃ e net₁, c.getAsk net = (.error e, net₁) ∧ c.vcek chip tcb net = ((.error e, c), net₁)) ∨
    ∃ ask net₁, c.getAsk net = (.ok ask, net₁) ∧ c.vcek chip tcb net =
      (((c.chipKeyWith ask chip tcb net₁).1, { c with ask := some ask }),
        (c.chipKeyWith ask chip tcb net₁).2) := by
  cases ha : c.getAsk net with
  | mk r net₁ =>
    cases r with
    | error e => exact .inl ⟨e, net₁, rfl, vcek_of_error ha chip tcb⟩
    | ok ask => exact .inr ⟨ask, net₁, rfl, vcek_of_ok ha chip tcb⟩

theorem getAsk_follows_vcek (c : KdsClient) (chip : Bytes) (tcb : TcbVersion) (net : Network) :
    (c.getAsk net).2.Follows (c.vcek chip tcb net).2 := by
  obtain ⟨e, net₁, ha, hv⟩ | ⟨ask, net₁, ha, hv⟩ := c.vcek_cases chip tcb net
  · rw [ha, hv]
    exact .refl net₁
  · rw [ha, hv]
    exact (c.fetching_chipKeyWith ask chip tcb net₁).follows

theorem follows_vcek (c : KdsClient) (chip : Bytes) (tcb : TcbVersion) (net : Network) :
    net.Follows (c.vcek chip tcb net).2 :=
  (c.follows_getAsk net).trans (c.getAsk_follows_vcek chip tcb net)

end KdsClient

end AttestedVault
