import AttestedVault.Attestation.Attestor
import AttestedVault.Proofs.Written

/-!
# The layout of a report

Raw bytes are a report if they have its length, name its algorithm and leave the
unused ends of the signature's two places zero. Its fields are then the bytes at
their offsets, and a report that was built is read as it was built.
-/

namespace AttestedVault

namespace Bytes

/-- Where the part with this number begins, among parts of these lengths in a row. -/
def offset : List Nat → Nat → Nat
  | n :: lengths, i + 1 => n + offset lengths i
  | _, _ => 0

theorem length_flatten_take : ∀ (l : List Bytes) (i : Nat), (l.take i).flatten.length = offset (l.map List.length) i
  | [], i => by rw [List.take_nil]; rfl
  | _ :: _, 0 => rfl
  | part :: l, i + 1 => by
    rw [List.take_succ_cons, List.flatten_cons, List.length_append, length_flatten_take l i]
    rfl

theorem take_drop_flatten {l : List Bytes} {lengths : List Nat} (hl : l.map List.length = lengths) {i n start : Nat}
    {part : Bytes} (hp : l[i]? = some part) (hs : offset lengths i = start) (hn : lengths[i]? = some n) :
    (l.flatten.drop start).take n = part := by
  obtain ⟨hi, rfl⟩ := List.getElem?_eq_some_iff.mp hp
  have hn : l[i].length = n := by
    rw [← hl, List.getElem?_map, hp] at hn
    exact Option.some.inj hn
  have hs : (l.take i).flatten.length = start := by
    rw [length_flatten_take, hl, hs]
  have hcut : l.flatten = (l.take i).flatten ++ (l[i] ++ (l.drop (i + 1)).flatten) := by
    rw [← List.flatten_cons, ← List.drop_eq_getElem_cons hi, ← List.flatten_append, List.take_append_drop]
  rw [hcut, List.drop_left' hs, List.take_left' hn]

theorem all_zero_iff {b : Bytes} {n : Nat} (h : b.length = n) : b.all (· == 0) = true ↔ b = List.replicate n 0 := by
  rw [List.all_eq_true, List.eq_replicate_iff]
  constructor
  · intro hz
    exact ⟨h, fun x hx => eq_of_beq (hz x hx)⟩
  · rintro ⟨-, hz⟩ x hx
    rw [hz x hx]
    rfl

end Bytes

theorem TcbVersion.ofBytes_eq_iff {o : Octets 8} {t : TcbVersion} :
    ofBytes o = t ↔ o.val[0]? = some t.bootLoader ∧ o.val[1]? = some t.tee ∧ o.val[6]? = some t.snp ∧
      o.val[7]? = some t.microcode := by
  obtain ⟨b, h⟩ := o
  match b, h with
  | [x₀, x₁, x₂, x₃, x₄, x₅, x₆, x₇], h =>
    constructor
    · rintro rfl
      exact ⟨rfl, rfl, rfl, rfl⟩
    · rintro ⟨h₀, h₁, h₆, h₇⟩
      exact TcbVersion.mk.injEq .. |>.mpr ⟨Option.some.inj h₀, Option.some.inj h₁, Option.some.inj h₆, Option.some.inj h₇⟩

namespace SnpReport

/-! ## Reading -/

structure WellFormed (b : Bytes) : Prop where
  length : b.length = 0x4a0
  algorithm : Bytes.toNatLE ((b.drop 0x34).take 4) = 1
  /-- The ends of the places of both components. -/
  first : (b.drop 0x2d0).take 24 = List.replicate 24 0
  second : (b.drop 0x318).take 24 = List.replicate 24 0

structure Fields (r : SnpReport) (b : Bytes) : Prop where
  version : r.version = Bytes.toNatLE (b.take 4)
  algorithm : r.algorithm = 1
  reportData : r.reportData.val = (b.drop 0x50).take 64
  measurement : r.measurement.val = (b.drop 0x90).take 48
  bootLoader : b[0x180]? = some r.tcb.bootLoader
  tee : b[0x181]? = some r.tcb.tee
  snp : b[0x186]? = some r.tcb.snp
  microcode : b[0x187]? = some r.tcb.microcode
  chipId : r.chipId.val = (b.drop 0x1a0).take 64
  signature : r.signature.val = ((b.drop 0x2a0).take 48).reverse ++ ((b.drop 0x2e8).take 48).reverse
  signedBody : r.signedBody.val = b.take 0x2a0

variable {b : Bytes} {r r' : SnpReport}

theorem Fields.unique (h : r.Fields b) (h' : r'.Fields b) : r = r' := by
  obtain ⟨version, algorithm, reportData, measurement, ⟨bootLoader, tee, snp, microcode⟩, chipId, signature, body⟩ := r
  obtain ⟨version', algorithm', reportData', measurement', ⟨_, _, _, _⟩, chipId', signature', body'⟩ := r'
  obtain rfl : version = version' := h.version.trans h'.version.symm
  obtain rfl : algorithm = algorithm' := h.algorithm.trans h'.algorithm.symm
  obtain rfl : reportData = reportData' := Subtype.ext (h.reportData.trans h'.reportData.symm)
  obtain rfl : measurement = measurement' := Subtype.ext (h.measurement.trans h'.measurement.symm)
  obtain rfl := Option.some.inj (h.bootLoader.symm.trans h'.bootLoader)
  obtain rfl := Option.some.inj (h.tee.symm.trans h'.tee)
  obtain rfl := Option.some.inj (h.snp.symm.trans h'.snp)
  obtain rfl := Option.some.inj (h.microcode.symm.trans h'.microcode)
  obtain rfl : chipId = chipId' := Subtype.ext (h.chipId.trans h'.chipId.symm)
  obtain rfl : signature = signature' := Subtype.ext (h.signature.trans h'.signature.symm)
  obtain rfl : body = body' := Subtype.ext (h.signedBody.trans h'.signedBody.symm)
  rfl

theorem number_eq {start : Nat} (h : start + 4 ≤ b.length) : number b start = Bytes.toNatLE ((b.drop start).take 4) := by
  rw [number, Octets.val_window h]

theorem component?_eq_some_iff {c : Bytes} {start : Nat} (h : start + 72 ≤ b.length) : component? b start = some c ↔
    (b.drop (start + 48)).take 24 = List.replicate 24 0 ∧ ((b.drop start).take 48).reverse = c := by
  have hl : ((b.drop (start + 48)).take 24).length = 24 := by
    rw [List.length_take, List.length_drop]
    omega
  rw [component?, Octets.val_window (by omega), ← Bytes.all_zero_iff hl]
  by_cases hz : ((b.drop (start + 48)).take 24).all (· == 0) = true
  · rw [if_pos hz, Option.some.injEq]
    exact ⟨fun h => ⟨hz, h⟩, fun h => h.2⟩
  · rw [if_neg hz]
    exact ⟨nofun, fun h => absurd h.1 hz⟩

theorem WellFormed.parse (h : WellFormed b) : ∃ r, parse b = .ok r ∧ r.Fields b := by
  have hl := h.length
  have hw : ∀ {start n : Nat}, start + n ≤ 0x4a0 → (Octets.window b start n).val = (b.drop start).take n :=
    fun hle => Octets.val_window (hl ▸ hle)
  have ha : number b 0x34 = ecdsaP384 := (number_eq (by omega)).trans h.algorithm
  have hr : component? b 0x2a0 = some ((b.drop 0x2a0).take 48).reverse :=
    (component?_eq_some_iff (by omega)).mpr ⟨h.first, rfl⟩
  have hs : component? b 0x2e8 = some ((b.drop 0x2e8).take 48).reverse :=
    (component?_eq_some_iff (by omega)).mpr ⟨h.second, rfl⟩
  have hlen : (((b.drop 0x2a0).take 48).reverse ++ ((b.drop 0x2e8).take 48).reverse).length = 96 := by
    simp only [List.length_append, List.length_reverse, List.length_take, List.length_drop]
    omega
  obtain ⟨h₀, h₁, h₆, h₇⟩ := (TcbVersion.ofBytes_eq_iff (o := Octets.window b 0x180 8)).mp rfl
  rw [hw (by decide)] at h₀ h₁ h₆ h₇
  simp only [List.getElem?_take, List.getElem?_drop] at h₀ h₁ h₆ h₇
  have hp : SnpReport.parse b = .ok
      { version := number b 0
        algorithm := number b 0x34
        reportData := Octets.window b 0x50 64
        measurement := Octets.window b 0x90 48
        tcb := TcbVersion.ofBytes (Octets.window b 0x180 8)
        chipId := Octets.window b 0x1a0 64
        signature := Octets.ofBytes 96 (((b.drop 0x2a0).take 48).reverse ++ ((b.drop 0x2e8).take 48).reverse)
        signedBody := Octets.window b 0 0x2a0 } := by
    simp only [SnpReport.parse, if_neg (not_not_intro (show b.length = SnpReport.length from hl)),
      if_neg (not_not_intro ha), hr, hs]
  refine ⟨_, hp, ?_⟩
  exact {
    version := number_eq (by omega)
    algorithm := ha
    reportData := hw (by decide)
    measurement := hw (by decide)
    bootLoader := h₀
    tee := h₁
    snp := h₆
    microcode := h₇
    chipId := hw (by decide)
    signature := Octets.val_ofBytes_of_length hlen
    signedBody := hw (by decide) }

theorem wellFormed_of_parse (h : parse b = .ok r) : WellFormed b := by
  unfold parse at h
  by_cases hl : b.length = length
  · rw [if_neg (not_not_intro hl)] at h
    have hlen : b.length = 0x4a0 := hl
    by_cases ha : number b 0x34 = ecdsaP384
    · rw [if_neg (not_not_intro ha)] at h
      cases hr : component? b 0x2a0 with
      | none => simp [hr] at h
      | some x =>
        cases hs : component? b 0x2e8 with
        | none => simp [hr, hs] at h
        | some y =>
          exact {
            length := hlen
            algorithm := (number_eq (by omega)).symm.trans ha
            first := ((component?_eq_some_iff (by omega)).mp hr).1
            second := ((component?_eq_some_iff (by omega)).mp hs).1 }
    · rw [if_pos ha] at h
      cases h
  · rw [if_pos hl] at h
    cases h

theorem parse_eq_ok_iff : parse b = .ok r ↔ WellFormed b ∧ r.Fields b := by
  constructor
  · intro h
    have hw := wellFormed_of_parse h
    obtain ⟨r', hr, hf⟩ := hw.parse
    rw [h, Except.ok.injEq] at hr
    exact ⟨hw, hr ▸ hf⟩
  · rintro ⟨hw, hf⟩
    obtain ⟨r', hr, hf'⟩ := hw.parse
    rw [hr, hf.unique hf']

/-! ## Building -/

def parts (c : Claims) (σ : Octets 96) : List Bytes :=
  [Bytes.ofNatLE 4 c.version.toNat, List.replicate 0x30 0, Bytes.ofNatLE 4 ecdsaP384, List.replicate 0x18 0,
    c.reportData.val, c.measurement.val, List.replicate 0xc0 0, c.tcb.toBytes.val, List.replicate 0x18 0, c.chipId.val,
    List.replicate 0xc0 0, (σ.val.take 48).reverse, List.replicate 24 0, (σ.val.drop 48).reverse, List.replicate 24 0,
    List.replicate 0x170 0]

def partLengths : List Nat := [4, 0x30, 4, 0x18, 64, 48, 0xc0, 8, 0x18, 64, 0xc0, 48, 24, 48, 24, 0x170]

variable (c : Claims) (σ : Octets 96)

theorem length_parts : (parts c σ).map List.length = partLengths := by
  simp only [parts, List.map_cons, List.map_nil, List.length_replicate, List.length_reverse, List.length_take,
    List.length_drop, Bytes.length_ofNatLE, c.reportData.property, c.measurement.property, c.tcb.toBytes.property,
    c.chipId.property, σ.property]
  rfl

theorem embed_eq_parts : embed (body c) σ = (parts c σ).flatten := by
  simp only [embed, body, parts, List.flatten_cons, List.flatten_nil, List.append_nil, List.append_assoc]

theorem length_embed : (embed (body c) σ).length = 0x4a0 := by
  rw [embed_eq_parts, List.length_flatten, length_parts]
  rfl

theorem take_embed : (embed (body c) σ).take 0x2a0 = (body c).val := by
  simp only [embed, List.append_assoc]
  exact List.take_left' (body c).property

theorem part_embed (i : Nat) {start n : Nat} {part : Bytes} (hp : (parts c σ)[i]? = some part)
    (h : partLengths[i]? = some n ∧ Bytes.offset partLengths i = start) :
    ((embed (body c) σ).drop start).take n = part := by
  rw [embed_eq_parts]
  exact Bytes.take_drop_flatten (length_parts c σ) hp h.2 h.1

theorem wellFormed_embed : WellFormed (embed (body c) σ) where
  length := length_embed c σ
  algorithm := congrArg Bytes.toNatLE (part_embed c σ 2 rfl (by decide))
  first := part_embed c σ 12 rfl (by decide)
  second := part_embed c σ 14 rfl (by decide)

/-- A report that states these claims with this signature. -/
def built : SnpReport :=
  ⟨c.version.toNat, ecdsaP384, c.reportData, c.measurement, c.tcb, c.chipId, σ, body c⟩

theorem version_embed : Bytes.toNatLE ((embed (body c) σ).take 4) = c.version.toNat := by
  have hv : ((embed (body c) σ).drop 0).take 4 = Bytes.ofNatLE 4 c.version.toNat := part_embed c σ 0 rfl (by decide)
  rw [List.drop_zero] at hv
  rw [hv, Bytes.toNatLE_ofNatLE]
  exact Nat.mod_eq_of_lt c.version.toNat_lt

theorem signature_embed : ((embed (body c) σ).drop 0x2a0 |>.take 48).reverse ++
    ((embed (body c) σ).drop 0x2e8 |>.take 48).reverse = σ.val := by
  have hr : ((embed (body c) σ).drop 0x2a0).take 48 = (σ.val.take 48).reverse := part_embed c σ 11 rfl (by decide)
  have hs : ((embed (body c) σ).drop 0x2e8).take 48 = (σ.val.drop 48).reverse := part_embed c σ 13 rfl (by decide)
  rw [hr, hs, List.reverse_reverse, List.reverse_reverse, List.take_append_drop]

theorem tcb_embed {i : Nat} (h : i < 8) : (embed (body c) σ)[0x180 + i]? = c.tcb.toBytes.val[i]? := by
  have ht : ((embed (body c) σ).drop 0x180).take 8 = c.tcb.toBytes.val := part_embed c σ 7 rfl (by decide)
  rw [← ht, List.getElem?_take, if_pos h, List.getElem?_drop]

theorem fields_embed : (built c σ).Fields (embed (body c) σ) where
  version := (version_embed c σ).symm
  algorithm := rfl
  reportData := (part_embed c σ 4 rfl (by decide)).symm
  measurement := (part_embed c σ 5 rfl (by decide)).symm
  bootLoader := tcb_embed c σ (i := 0) (by decide)
  tee := tcb_embed c σ (i := 1) (by decide)
  snp := tcb_embed c σ (i := 6) (by decide)
  microcode := tcb_embed c σ (i := 7) (by decide)
  chipId := (part_embed c σ 9 rfl (by decide)).symm
  signature := (signature_embed c σ).symm
  signedBody := (take_embed c σ).symm

theorem parse_embed : parse (embed (body c) σ) = .ok (built c σ) :=
  parse_eq_ok_iff.mpr ⟨wellFormed_embed c σ, fields_embed c σ⟩

end SnpReport

/-! ## Signing -/

theorem powMod_zero {m e : Nat} (h : e ≠ 0) : powMod m 0 e = 0 := by
  induction e using Nat.strongRecOn with
  | ind e ih =>
    rw [powMod, dif_neg h]
    by_cases ho : e % 2 = 1
    · simp only [ho, if_true, Nat.mul_zero, Nat.zero_mod]
    · simp only [ho, if_false, Nat.mul_zero, Nat.zero_mod]
      exact ih (e / 2) (by omega) (by omega)

namespace P384

theorem mulAdd_zero (g q gq : Jacobian) (bits : Nat) : mulAdd g q gq 0 0 bits .zero = .zero := by
  induction bits with
  | zero => rfl
  | succ bits ih =>
    simp only [mulAdd, Nat.zero_testBit]
    exact ih

theorem combine_zero (q : Affine) : combine 0 q 0 = none := by
  simp only [combine, mulAdd_zero]
  rfl

end P384

namespace Ecdsa

theorem not_verify_zero (key : P384.Affine) (m : Bytes) : verify key m ⟨0, 0⟩ = false := by
  have hw : inverse 0 = 0 := powMod_zero (by decide)
  simp only [verify, hw, Nat.mul_zero, Nat.zero_mod, P384.combine_zero]

theorem signOnce_inRange {k : SigningKey} {z nonce : Nat} {σ : Signature} (h : signOnce k z nonce = some σ) :
    σ.inRange = true := by
  simp only [signOnce] at h
  split at h
  · cases h
  split at h
  · cases h
  split at h
  · cases h
    assumption
  · cases h

theorem signWith_inRange {k : SigningKey} {z : Nat} : ∀ {fuel : Nat} {g : Drbg},
    signWith k z fuel g = ⟨0, 0⟩ ∨ (signWith k z fuel g).inRange = true
  | 0, _ => .inl rfl
  | fuel + 1, g => by
    rw [signWith]
    split
    · rename_i h
      exact .inr (signOnce_inRange h)
    · exact signWith_inRange

theorem sign_inRange {k : SigningKey} {key : P384.Affine} {m : Bytes} (h : verify key m (sign k m) = true) :
    (sign k m).inRange = true := by
  obtain hz | hr : sign k m = ⟨0, 0⟩ ∨ (sign k m).inRange = true := signWith_inRange
  · rw [hz, not_verify_zero] at h
    cases h
  · exact hr

namespace Signature

theorem length_toBytes (σ : Signature) : σ.toBytes.length = 96 := by
  rw [toBytes, List.length_append, Bytes.length_ofNat, Bytes.length_ofNat]

theorem ofBytes?_toBytes {σ : Signature} (h : σ.inRange = true) : ofBytes? σ.toBytes = some σ := by
  have hn : P384.n < 256 ^ 48 := by decide
  have ⟨⟨⟨_, hr⟩, _⟩, hs⟩ : ((0 < σ.r ∧ σ.r < P384.n) ∧ 0 < σ.s) ∧ σ.s < P384.n := by
    simpa only [inRange, Bool.and_eq_true, decide_eq_true_eq] using h
  have ht : Bytes.toNat (σ.toBytes.take 48) = σ.r := by
    rw [toBytes, List.take_left' (Bytes.length_ofNat ..), Bytes.toNat_ofNat, Nat.mod_eq_of_lt (Nat.lt_trans hr hn)]
  have hd : Bytes.toNat (σ.toBytes.drop 48) = σ.s := by
    rw [toBytes, List.drop_left' (Bytes.length_ofNat ..), Bytes.toNat_ofNat, Nat.mod_eq_of_lt (Nat.lt_trans hs hn)]
  simp only [ofBytes?, length_toBytes, if_true, ht, hd, h]

end Signature

end Ecdsa

theorem SnpReport.verify_of_signature {r : SnpReport} {key : P384.Affine} {σ : Ecdsa.Signature}
    (hσ : r.signature.val = σ.toBytes) (hr : σ.inRange = true) (hv : Ecdsa.verify key r.signedBody.val σ = true) :
    r.verify key = .ok (r.toReport true) := by
  simp only [verify, hσ, Ecdsa.Signature.ofBytes?_toBytes hr, hv, if_true]

namespace SoftwareAttestor

variable (a : SoftwareAttestor)

def signature : Octets 96 :=
  Octets.ofBytes 96 (Ecdsa.sign a.key (SnpReport.body a.claims).val).toBytes

theorem report_of_parse {r : SnpReport} (h : SnpReport.parse a.rawReport = .ok r) :
    a.report = r.verify a.key.point := by
  rw [report, h]

theorem parse_rawReport : SnpReport.parse a.rawReport = .ok (.built a.claims a.signature) :=
  SnpReport.parse_embed a.claims a.signature

variable {a}

theorem verify_built
    (h : Ecdsa.verify a.key.point (SnpReport.body a.claims).val (Ecdsa.sign a.key (SnpReport.body a.claims).val) = true) :
    (SnpReport.built a.claims a.signature).verify a.key.point =
      .ok ((SnpReport.built a.claims a.signature).toReport true) :=
  SnpReport.verify_of_signature (Octets.val_ofBytes_of_length (Ecdsa.Signature.length_toBytes _))
    (Ecdsa.sign_inRange h) h

end SoftwareAttestor

/-- Exactly the well-formed bytes are a report, whose fields stand at their offsets. A
report that was built is read as it was built, and passes the check if it was
signed with a signature that does. -/
theorem SnpReport.parse_exact :
    (∀ b, (∃ r, parse b = .ok r) ↔ WellFormed b) ∧
    (∀ b r, parse b = .ok r ↔ WellFormed b ∧ r.Fields b) ∧
    (∀ c σ, parse (embed (body c) σ) = .ok (built c σ) ∧ (embed (body c) σ).take 0x2a0 = (body c).val) ∧
    ∀ a : SoftwareAttestor,
      Ecdsa.verify a.key.point (body a.claims).val (Ecdsa.sign a.key (body a.claims).val) = true →
      ∃ r, parse a.rawReport = .ok r ∧ r.measurement = a.measurement ∧ r.version = a.version.toNat ∧
        r.verify a.key.point = .ok (r.toReport true) ∧ a.report = .ok (r.toReport true) := by
  refine ⟨fun b => ⟨?_, ?_⟩, fun b r => parse_eq_ok_iff, fun c σ => ⟨parse_embed c σ, take_embed c σ⟩, ?_⟩
  · rintro ⟨r, h⟩
    exact wellFormed_of_parse h
  · intro h
    obtain ⟨r, hr, -⟩ := h.parse
    exact ⟨r, hr⟩
  · intro a h
    have hv := SoftwareAttestor.verify_built h
    refine ⟨_, a.parse_rawReport, rfl, rfl, hv, ?_⟩
    exact (a.report_of_parse a.parse_rawReport).trans hv

def SoftwareAttestor.simplest : SoftwareAttestor where
  key := ⟨1, by decide, by decide⟩
  measurement := Octets.ofBytes 48 (.replicate 48 0x5a)
  version := 2

theorem SnpReport.parse_exact_simplest : ∃ r, parse SoftwareAttestor.simplest.rawReport = .ok r ∧
    SoftwareAttestor.simplest.report = .ok (r.toReport true) := by
  obtain ⟨r, hr, -, -, -, hv⟩ := parse_exact.2.2.2 .simplest (by decide +kernel)
  exact ⟨r, hr, hv⟩

end AttestedVault
