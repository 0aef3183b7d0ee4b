import AttestedVault.Proofs.SharedStore
import AttestedVault.Proofs.Vouchers
import Mathlib.Tactic.Abel

/-!
# Initial values

Vaults at work over one store, where tasks are given up and managers restarted at
any point. Each seal of a run has an initial value of its own, and so has
everything that is given out.
-/

namespace AttestedVault

/-! ## Draws -/

namespace Random

def given (octets : (length : Nat) → (number : Nat) → Octets length) : List Nat → List Bytes
  | [] => []
  | n :: ns => (octets n (ns.count n)).val :: given octets ns

def outputs (r : Random) : List Bytes := given r.octets r.drawn

/-- No two draws of one length gave the same bytes. -/
def Distinct (r : Random) : Prop :=
  ∀ n i j, i < r.drawn.count n → j < r.drawn.count n → r.octets n i = r.octets n j → i = j

variable {octets : (length : Nat) → (number : Nat) → Octets length} {ns : List Nat}

theorem mem_given {b : Bytes} (h : b ∈ given octets ns) : ∃ n i, i < ns.count n ∧ b = (octets n i).val := by
  induction ns with
  | nil => cases h
  | cons m ns ih =>
    rcases List.mem_cons.mp h with rfl | h
    · exact ⟨m, ns.count m, by rw [List.count_cons_self]; exact Nat.lt_succ_self _, rfl⟩
    · obtain ⟨n, i, hi, rfl⟩ := ih h
      exact ⟨n, i, hi.trans_le List.count_le_count_cons, rfl⟩

theorem nodup_given (h : ∀ n i j, i < ns.count n → j < ns.count n → octets n i = octets n j → i = j) :
    (given octets ns).Nodup := by
  induction ns with
  | nil => exact .nil
  | cons m ns ih =>
    have hlt : ∀ {n i}, i < ns.count n → i < (m :: ns).count n := fun hi => hi.trans_le List.count_le_count_cons
    refine List.nodup_cons.mpr ⟨fun hm => ?_, ih fun n i j hi hj => h n i j (hlt hi) (hlt hj)⟩
    obtain ⟨n, i, hi, hb⟩ := mem_given hm
    -- draws of two lengths differ in their length
    obtain rfl : m = n := by rw [← (octets m _).property, hb, (octets n i).property]
    have hlast : ns.count m < (m :: ns).count m := by rw [List.count_cons_self]; exact Nat.lt_succ_self _
    exact Nat.ne_of_gt hi (h m _ _ hlast (hlt hi) (Subtype.ext hb))

theorem Distinct.nodup {r : Random} (h : r.Distinct) : r.outputs.Nodup := nodup_given h

theorem distinct_iff {r : Random} : r.Distinct ↔ ∀ n ∈ r.drawn, ∀ i < r.drawn.count n, ∀ j < r.drawn.count n,
    r.octets n i = r.octets n j → i = j := by
  refine ⟨fun h n _ i hi j hj => h n i j hi hj, fun h n i j hi hj => ?_⟩
  exact h n (List.count_pos_iff.mp (Nat.zero_lt_of_lt hi)) i hi j hj

instance (r : Random) : Decidable r.Distinct := decidable_of_iff _ distinct_iff.symm

end Random

/-! ## Accounts -/

namespace Voucher

def seal? : Voucher → Option Bytes
  | .seal iv => some iv
  | .issue _ => none

def issue? : Voucher → Option Bytes
  | .seal _ => none
  | .issue iv => some iv

variable (ivs : List Bytes)

@[simp] theorem filterMap_seal?_seal : (ivs.map Voucher.seal).filterMap seal? = ivs := by
  simp [Function.comp_def, seal?]

@[simp] theorem filterMap_seal?_issue : (ivs.map Voucher.issue).filterMap seal? = [] := by
  simp [seal?]

@[simp] theorem filterMap_issue?_seal : (ivs.map Voucher.seal).filterMap issue? = [] := by
  simp [issue?]

@[simp] theorem filterMap_issue?_issue : (ivs.map Voucher.issue).filterMap issue? = ivs := by
  simp [Function.comp_def, issue?]

end Voucher

/-- The vouchers that were handed out have paid for all seals and for the records
that were stored, and what is left is in the purse. -/
structure Shared.Balanced (stored : List KeyRecord) (p : Purse) (s : Shared) : Prop where
  lengths : ∀ x ∈ s.seals, x.2.length = 16 ∨ x.2.length = 12
  accounts : ∃ ws : List Bytes, List.Forall₂ KeyRecord.Carries stored ws ∧
    p + ((s.seals.map Prod.snd).map .seal : List Voucher) + (ws.map .issue : List Voucher) ≤
      (s.random.outputs.map .seal : List Voucher) + ((s.seals.map Prod.snd).map .issue : List Voucher)

namespace Shared.Balanced

variable {stored : List KeyRecord} {p : Purse} {s s' : Shared}

theorem of_same (h : s.Balanced stored p) (hr : s'.random.outputs = s.random.outputs) (hs : s'.seals = s.seals) :
    s'.Balanced stored p := by
  refine ⟨?_, ?_⟩
  · rw [hs]
    exact h.lengths
  · rw [hr, hs]
    exact h.accounts

variable {cost rest : Purse} {iv : Bytes} {r : KeyRecord}

theorem waste (h : s.Balanced stored (cost + rest)) : s.Balanced stored rest := by
  obtain ⟨hlen, ws, hws, hle⟩ := h
  refine ⟨hlen, ws, hws, le_trans ?_ hle⟩
  exact add_le_add_left (add_le_add_left (Multiset.le_add_left rest cost) _) _

theorem draw (h : s.Balanced stored p) (n : Nat) :
    Balanced stored (Effect.gain (.draw n) (s.random.draw n).1 + p) { s with random := (s.random.draw n).2 } := by
  unfold Random.draw
  cases s.random.fails s.random.attempts with
  | some reason =>
    simp only [Effect.gain, zero_add]
    exact h.of_same rfl rfl
  | none =>
    obtain ⟨hlen, ws, hws, hle⟩ := h
    refine ⟨hlen, ws, hws, ?_⟩
    simp only [Effect.gain, Random.outputs, Random.given, List.map_cons, ← Multiset.cons_coe,
      ← Multiset.singleton_add, add_assoc] at hle ⊢
    exact add_le_add_right hle _

theorem addSeal (h : s.Balanced stored ({.seal iv} + rest)) (hiv : iv.length = 16 ∨ iv.length = 12)
    (key : Octets 32) : Balanced stored ({.issue iv} + rest) { s with seals := (key, iv) :: s.seals } := by
  obtain ⟨hlen, ws, hws, hle⟩ := h
  refine ⟨List.forall_mem_cons.mpr ⟨hiv, hlen⟩, ws, hws, ?_⟩
  simp only [List.map_cons, ← Multiset.cons_coe, ← Multiset.singleton_add]
  have hle := add_le_add_right hle ({.issue iv} : Purse)
  refine le_trans (le_of_eq ?_) (hle.trans (le_of_eq ?_)) <;> abel

theorem store (h : s.Balanced stored ({.issue iv} + rest)) (hr : r.Carries iv) :
    s.Balanced (stored ++ [r]) rest := by
  obtain ⟨hlen, ws, hws, hle⟩ := h
  refine ⟨hlen, ws ++ [iv], List.rel_append hws (.cons hr .nil), le_trans (le_of_eq ?_) hle⟩
  rw [List.map_append, ← Multiset.coe_add, List.map_singleton, Multiset.coe_singleton]
  abel

theorem write {h : Host} (hb : h.shared.Balanced stored ({.issue iv} + rest)) (hr : r.Carries iv)
    (fault : Option StoreError) (call : Store → Except StoreError Store) :
    (Host.write fault call h).2.shared.Balanced
      (stored ++ (if Except.isOk (Host.write fault call h).1 then some r else none).toList) rest := by
  have hsame : (Host.write fault call h).2.shared.random = h.shared.random ∧
      (Host.write fault call h).2.shared.seals = h.shared.seals := by
    unfold Host.write
    cases fault <;> exact ⟨rfl, rfl⟩
  refine of_same ?_ (congrArg Random.outputs hsame.1) hsame.2
  split
  · exact hb.store hr
  · exact (List.append_nil stored).symm ▸ hb.waste

theorem perform {h : Host} {e : Effect} (hb : h.shared.Balanced stored (cost + rest)) (he : e.Costs cost) :
    (Host.perform e h).2.shared.Balanced (stored ++ (e.stored? (Host.perform e h).1).toList)
      (e.gain (Host.perform e h).1 + rest) := by
  cases e with
  | draw n =>
    obtain rfl : cost = 0 := he
    rw [zero_add] at hb
    exact (List.append_nil stored).symm ▸ hb.draw n
  | «seal» key iv plaintext aad =>
    obtain ⟨hiv, rfl⟩ := he
    exact (List.append_nil stored).symm ▸ hb.addSeal hiv key
  | create r =>
    obtain ⟨iv, hr, rfl⟩ := he
    exact (zero_add rest).symm ▸ hb.write hr _ _
  | replace previous r =>
    obtain ⟨iv, hr, rfl⟩ := he
    exact (zero_add rest).symm ▸ hb.write hr _ _
  | _ =>
    obtain rfl : cost = 0 := he
    exact (List.append_nil stored).symm ▸ hb.of_same rfl rfl

theorem paid (h : s.Balanced stored p) {cs : List String} (hcs : Credential.Covers cs p) :
    (∀ x ∈ s.seals, x.2.length = 16 ∨ x.2.length = 12) ∧
    (s.seals.map Prod.snd).Subperm s.random.outputs ∧ ∃ ivs ws : List Bytes,
      List.Forall₂ Credential.Carries cs ivs ∧ List.Forall₂ KeyRecord.Carries stored ws ∧
      (ivs ++ ws).Subperm (s.seals.map Prod.snd) := by
  obtain ⟨hlen, ws, hws, hle⟩ := h
  obtain ⟨ivs, hivs, hp⟩ := hcs
  have hle := (add_le_add_left (add_le_add_left hp _) _).trans hle
  -- seals are paid for by draws, and what is given out by seals
  have hseals := Multiset.filterMap_le_filterMap Voucher.seal? hle
  have hissues := Multiset.filterMap_le_filterMap Voucher.issue? hle
  simp only [Multiset.coe_add, Multiset.filterMap_coe, List.filterMap_append, Voucher.filterMap_seal?_seal,
    Voucher.filterMap_seal?_issue, Voucher.filterMap_issue?_seal, Voucher.filterMap_issue?_issue, List.append_nil,
    List.nil_append, Multiset.coe_le] at hseals hissues
  exact ⟨hlen, hseals, ivs, ws, hivs, hws, hissues⟩

end Shared.Balanced

/-! ## Records -/

namespace Host

variable {rs : List KeyRecord} {r : KeyRecord} {h : Host}

theorem contains_write {call : Store → Except StoreError Store} (hs : h.shared.store.Contains (succession rs))
    (hcall : ∀ t, call h.shared.store = .ok t → t.Contains (succession (rs ++ [r]))) (fault : Option StoreError) :
    (write fault call h).2.shared.store.Contains
      (succession (rs ++ (if Except.isOk (write fault call h).1 then some r else none).toList)) := by
  cases hw : (write fault call h).1 with
  | ok u => exact hcall _ (write_ok hw).1
  | error e =>
    rw [(write_error hw).1]
    exact (List.append_nil rs).symm ▸ hs

theorem contains_perform (hs : h.shared.store.Contains (succession rs)) (e : Effect) :
    (perform e h).2.shared.store.Contains (succession (rs ++ (e.stored? (perform e h).1).toList)) := by
  cases e with
  | create r =>
    refine contains_write hs (fun t ht => ?_) _
    obtain ⟨rfl, hr⟩ := hs.create ht
    exact hr
  | replace previous r => exact contains_write hs (fun t ht => (hs.replace ht).2) _
  | _ => exact (List.append_nil rs).symm ▸ hs

end Host

/-! ## Runs -/

/-- The tasks can pay for all that they may still do, and for what they have
returned. -/
inductive Backed : List (Task (List String)) → Purse → Prop
  | nil : Backed [] 0
  | cons {t : Task (List String)} {ts : List (Task (List String))} {p q : Purse}
      (pays : t.prog.Pays Credential.Covers p) (others : Backed ts q) : Backed (t :: ts) (p + q)

namespace Backed

variable {t : Task (List String)} {ts : List (Task (List String))} {p : Purse}

theorem concat (h : Backed ts p) (ht : t.prog.Pays Credential.Covers 0) : Backed (ts ++ [t]) p := by
  induction h with
  | nil => exact .cons ht .nil
  | cons pays _ ih => exact .cons pays ih

theorem exchange (h : Backed ts p) {i : Nat} (hi : ts[i]? = some t) : ∃ own others, p = own + others ∧
    t.prog.Pays Credential.Covers own ∧ ∀ (t' : Task (List String)) (own' : Purse),
      t'.prog.Pays Credential.Covers own' → Backed (ts.set i t') (own' + others) := by
  induction h generalizing i with
  | nil => cases hi
  | @cons t₀ ts p q pays others ih =>
    cases i with
    | zero =>
      cases hi
      exact ⟨p, q, rfl, pays, fun t' own' h' => .cons h' others⟩
    | succ i =>
      obtain ⟨own, rest, rfl, hown, hset⟩ := ih hi
      refine ⟨own, p + rest, add_left_comm _ _ _, hown, fun t' own' h' => ?_⟩
      exact add_left_comm own' p rest ▸ .cons pays (hset t' own' h')

theorem covers (h : Backed ts p) : Credential.Covers (ts.flatMap fun t => t.prog.result?.getD []) p := by
  induction h with
  | nil => exact Credential.covers_nil 0
  | @cons t ts p q pays _ ih =>
    rcases t with ⟨node, a | ⟨e, k⟩⟩
    · exact Credential.Covers.append pays ih
    · exact ih.mono (Multiset.le_add_left q p)

end Backed

namespace Schedule

variable {σ : Type}

def stores {α : Type} (i : Nat) (s : Schedule Fleet α) : List KeyRecord :=
  match s.tasks[i]? with
  | some ⟨node, .call e _⟩ =>
    match (Contended.answer (Fleet.perform node) i node e s.contended).1 with
    | some x => (e.stored? x).toList
    | none => []
  | _ => []

def abandon (i : Nat) (s : Schedule σ (List String)) : Schedule σ (List String) :=
  match s.tasks[i]? with
  | some ⟨node, .call ..⟩ =>
    ⟨{ s.contended with queue := s.contended.queue.filter (·.task ≠ i) }, s.tasks.set i ⟨node, .done []⟩⟩
  | _ => s

def renew {α : Type} (node : Nat) (n : Node) (s : Schedule Fleet α) : Schedule Fleet α :=
  { s with contended := { s.contended with state := s.contended.state.put node ⟨s.contended.state.shared, n⟩ } }

def issued (s : Schedule σ (List String)) : List String := s.tasks.flatMap fun t => t.prog.result?.getD []

end Schedule

namespace Fleet

/-- What a fleet comes to, and the records that it stored on the way. Tasks take up
requests and move by single effects. -/
inductive Run (f₀ : Fleet) : List KeyRecord → Schedule Fleet (List String) → Prop
  | start (unused : f₀.shared.seals = []) : Run f₀ [] (.start f₀)
  | request {stored : List KeyRecord} {s : Schedule Fleet (List String)} (node : Nat) (source : KeySource)
      (r : Request) (before : Run f₀ stored s) :
      Run f₀ stored { s with tasks := s.tasks ++ [⟨node, r.prog source⟩] }
  | step {stored : List KeyRecord} {s : Schedule Fleet (List String)} (i : Nat) (before : Run f₀ stored s) :
      Run f₀ (stored ++ s.stores i) (s.step perform i)
  | abandon {stored : List KeyRecord} {s : Schedule Fleet (List String)} (i : Nat) (before : Run f₀ stored s) :
      Run f₀ stored (s.abandon i)
  /-- A restart, other code, or store calls that fail. -/
  | renew {stored : List KeyRecord} {s : Schedule Fleet (List String)} (node : Nat) (n : Node)
      (before : Run f₀ stored s) : Run f₀ stored (s.renew node n)

structure Solvent (f₀ : Fleet) (stored : List KeyRecord) (s : Schedule Fleet (List String)) : Prop where
  pays : ∃ p, Backed s.tasks p ∧ s.contended.state.shared.Balanced stored p
  contains : ∀ rs, f₀.shared.store.Contains (succession rs) →
    s.contended.state.shared.store.Contains (succession (rs ++ stored))

namespace Solvent

variable {f₀ : Fleet} {stored : List KeyRecord} {s : Schedule Fleet (List String)}

theorem start (unused : f₀.shared.seals = []) : Solvent f₀ [] (.start f₀) := by
  refine ⟨⟨0, .nil, ?_, [], .nil, ?_⟩, fun rs h => (List.append_nil rs).symm ▸ h⟩
  · change ∀ x ∈ f₀.shared.seals, _
    rw [unused]
    exact fun x hx => by cases hx
  · change (0 : Purse) + ((f₀.shared.seals.map Prod.snd).map _ : List Voucher) + 0 ≤ _
    rw [unused]
    exact Multiset.zero_le _

theorem of_shared (h : Solvent f₀ stored s) {c : Contended Fleet} (hc : c.state.shared = s.contended.state.shared) :
    Solvent f₀ stored { s with contended := c } := by
  refine ⟨?_, ?_⟩
  · rw [hc]
    exact h.pays
  · rw [hc]
    exact h.contains

theorem request (h : Solvent f₀ stored s) (node : Nat) (source : KeySource) (r : Request) :
    Solvent f₀ stored { s with tasks := s.tasks ++ [⟨node, r.prog source⟩] } := by
  obtain ⟨p, hp, hb⟩ := h.pays
  exact ⟨⟨p, hp.concat (r.prog_pays source), hb⟩, h.contains⟩

theorem move (h : Solvent f₀ stored s) {i node : Nat} {e : Effect} {k : e.Answer → Prog (List String)}
    (ht : s.tasks[i]? = some ⟨node, .call e k⟩) {x : e.Answer} {f : Fleet} {queue : List LockRequest}
    {more : List KeyRecord} (hx : e.Honest x)
    (hb : ∀ cost rest, e.Costs cost → s.contended.state.shared.Balanced stored (cost + rest) →
      f.shared.Balanced (stored ++ more) (e.gain x + rest))
    (hc : ∀ rs, s.contended.state.shared.store.Contains (succession rs) →
      f.shared.store.Contains (succession (rs ++ more))) :
    Solvent f₀ (stored ++ more) ⟨⟨f, queue⟩, s.tasks.set i ⟨node, k x⟩⟩ := by
  obtain ⟨p, hp, hbal⟩ := h.pays
  obtain ⟨own, others, rfl, hown, hset⟩ := hp.exchange ht
  obtain ⟨cost, rest, hcost, rfl, hk⟩ := hown
  rw [add_assoc] at hbal
  refine ⟨⟨_, hset ⟨node, k x⟩ _ (hk x hx), ?_⟩, fun rs hrs => ?_⟩
  · rw [add_assoc]
    exact hb cost _ hcost hbal
  · rw [← List.append_assoc]
    exact hc _ (h.contains rs hrs)

theorem step (h : Solvent f₀ stored s) (i : Nat) : Solvent f₀ (stored ++ s.stores i) (s.step perform i) := by
  unfold Schedule.stores Schedule.step
  cases ht : s.tasks[i]? with
  | none => exact (List.append_nil stored).symm ▸ h
  | some t =>
    obtain ⟨node, p⟩ := t
    cases p with
    | done cs => exact (List.append_nil stored).symm ▸ h
    | call e k =>
      simp only
      cases he : e.isLocking with
      | false =>
        rw [Contended.answer_of_not_locking he]
        exact h.move ht (Host.honest_perform e _) (fun cost rest hcost hb => hb.perform hcost) fun rs hrs =>
          Host.contains_perform (h := s.contended.state.host node) hrs e
      | true =>
        have hst := Contended.state_of_locking (h := perform node) (i := i) (n := node) he s.contended
        cases hx : Contended.answer (perform node) i node e s.contended with
        | mk a c =>
          rw [hx] at hst
          cases a with
          | none => exact (List.append_nil stored).symm ▸ h.of_shared (congrArg (·.shared) hst)
          | some x =>
            -- a lock is taken or given back, which nobody pays for
            have hmore : (e.stored? x).toList = [] := by cases e <;> first | rfl | cases he
            have hgain : e.gain x = 0 := by cases e <;> first | rfl | cases he
            have hhonest : e.Honest x := by cases e <;> trivial
            simp only [hmore]
            refine h.move ht hhonest (fun cost rest _ hb => ?_) fun rs hrs => ?_
            · rw [hst, hgain, zero_add, List.append_nil]
              exact hb.waste
            · rw [hst, List.append_nil]
              exact hrs

theorem abandon (h : Solvent f₀ stored s) (i : Nat) : Solvent f₀ stored (s.abandon i) := by
  unfold Schedule.abandon
  cases ht : s.tasks[i]? with
  | none => exact h
  | some t =>
    obtain ⟨node, p⟩ := t
    cases p with
    | done cs => exact h
    | call e k =>
      obtain ⟨p, hp, hb⟩ := h.pays
      obtain ⟨own, others, rfl, -, hset⟩ := hp.exchange ht
      -- the task keeps its vouchers and uses none of them
      exact ⟨⟨_, hset ⟨node, .done []⟩ own (Credential.covers_nil own), hb⟩, h.contains⟩

end Solvent

namespace Run

variable {f₀ : Fleet} {stored : List KeyRecord} {s : Schedule Fleet (List String)}

theorem solvent (h : Run f₀ stored s) : Solvent f₀ stored s := by
  induction h with
  | start unused => exact .start unused
  | request node source r _ ih => exact ih.request node source r
  | step i _ ih => exact ih.step i
  | abandon i _ ih => exact ih.abandon i
  | renew node n _ ih => exact ih.of_shared rfl

theorem advance (h : Run f₀ stored s) (stop : Effect → Bool) (i : Nat) :
    ∃ stored', Run f₀ stored' (s.advance perform stop i) :=
  Schedule.advance_of_step (P := fun s => ∃ stored, Run f₀ stored s) (fun _ ⟨_, h⟩ => ⟨_, h.step i⟩) stop
    ⟨stored, h⟩

/-- If no two draws of one length gave the same bytes, no two seals of a run were
made under the same key and initial value, and not even under the same initial
value. Each seal has a draw of its own, and so has each credential that was
returned and each record that was stored. Nothing else was added to the store. -/
theorem initial_values_differ (h : Run f₀ stored s) (distinct : s.contended.state.shared.random.Distinct) :
    s.contended.state.shared.seals.Nodup ∧ (s.contended.state.shared.seals.map Prod.snd).Nodup ∧
    (∀ x ∈ s.contended.state.shared.seals, x.2.length = 16 ∨ x.2.length = 12) ∧
    (s.contended.state.shared.seals.map Prod.snd).Subperm s.contended.state.shared.random.outputs ∧
    (∃ ivs ws : List Bytes, List.Forall₂ Credential.Carries s.issued ivs ∧
      List.Forall₂ KeyRecord.Carries stored ws ∧
      (ivs ++ ws).Subperm (s.contended.state.shared.seals.map Prod.snd) ∧
      (ivs ++ ws).Subperm s.contended.state.shared.random.outputs) ∧
    ∀ rs, f₀.shared.store.Contains (succession rs) →
      s.contended.state.shared.store.Contains (succession (rs ++ stored)) := by
  obtain ⟨⟨p, hp, hb⟩, hstore⟩ := h.solvent
  obtain ⟨hlen, hseals, ivs, ws, hivs, hws, hissued⟩ := hb.paid hp.covers
  have hnodup : (s.contended.state.shared.seals.map Prod.snd).Nodup :=
    Multiset.nodup_of_le (Multiset.coe_le.mpr hseals) distinct.nodup
  exact ⟨hnodup.of_map _, hnodup, hlen, hseals, ⟨ivs, ws, hivs, hws, hissued, hissued.trans hseals⟩, hstore⟩

theorem initial_values_differ_numbered : ∃ f₀ stored s c d, Run f₀ stored s ∧
    s.contended.state.shared.random.Distinct ∧ s.issued = [c, d] ∧ s.contended.state.shared.seals.length = 3 ∧
    s.contended.state.shared.seals.Nodup := by
  let numbered : Random := ⟨fun n i => .ofBytes n [UInt8.ofNat i], fun _ => none, 0, []⟩
  let f₀ : Fleet := { attested .blank with shared := { (attested .blank).shared with random := numbered } }
  obtain ⟨stored, s, h, hd, hc, hl⟩ : ∃ stored s, Run f₀ stored s ∧ s.contended.state.shared.random.Distinct ∧
      s.issued.length = 2 ∧ s.contended.state.shared.seals.length = 3 := by
    have h₀ : Run f₀ [] (.start f₀) := .start rfl
    obtain ⟨l₁, h₁⟩ := (h₀.request 0 .attested (.encrypt "")).advance (fun _ => false) 0
    obtain ⟨l₂, h₂⟩ := (h₁.request 0 .attested (.encrypt "")).advance (fun _ => false) 1
    exact ⟨l₂, _, h₂, by decide +kernel, by decide +kernel, by decide +kernel⟩
  obtain ⟨c, d, hcd⟩ := List.length_eq_two.mp hc
  exact ⟨f₀, stored, s, c, d, h, hd, hcd, hl, (h.initial_values_differ hd).1⟩

end Run

end Fleet

end AttestedVault
