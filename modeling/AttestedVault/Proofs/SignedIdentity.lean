import AttestedVault.Manager.Error
import AttestedVault.Proofs.PinnedRoot
import AttestedVault.Proofs.Written

/-!
# The identity in a report

The master key of a verified report is a function of 52 of its bytes, the
version and the measurement, which the chip's key has signed. An operator who
knows both derives the same key from them.
-/

namespace AttestedVault

namespace AttestationReport

theorem measurementBytes_eq (r : AttestationReport) : r.measurementBytes = r.measurement.val := by
  rw [measurementBytes, measurementText, Hex.decode?, Hex.decode_encode]
  rfl

theorem masterKey_of_verified {r : AttestationReport} (h : r.verified = true) : ∃ k,
    r.masterKey = .ok k ∧ MasterKey.derive r.measurement.val r.platformVersion = .ok k := by
  -- it does not fail, since there are bytes to derive it from
  have hm : r.measurement.val ≠ [] := by
    intro hn
    have hl := r.measurement.property
    simp [hn] at hl
  have hk : MasterKey.derive r.measurement.val r.platformVersion = .ok _ := if_neg hm
  exact ⟨_, by rw [masterKey, if_pos h, measurementBytes_eq, hk], hk⟩

theorem masterKey_of_unverified {r : AttestationReport} (h : r.verified = false) :
    r.masterKey = .error .unverifiedReport := by
  simp [masterKey, h]

end AttestationReport

namespace SnpReport

/-- The 52 bytes of a raw report that tell which code runs: version, then measurement. -/
def identity (b : Bytes) : Bytes := b.take 4 ++ (b.drop 0x90).take 48

theorem identity_take (b : Bytes) : identity (b.take 0x2a0) = identity b := by
  simp [identity, List.take_take, List.drop_take]

theorem identity_inj {b b' : Bytes} (hl : b.length = length) (hl' : b'.length = length)
    (h : identity b' = identity b) :
    b'.take 4 = b.take 4 ∧ (b'.drop 0x90).take 48 = (b.drop 0x90).take 48 := by
  refine List.append_inj h ?_
  rw [List.length_take, List.length_take, hl, hl']

theorem verify_ok {s : SnpReport} {key : P384.Affine} {r : AttestationReport}
    (h : s.verify key = .ok r) : r = s.toReport true := by
  unfold verify at h
  split at h
  · cases h
  · split at h
    · exact (Except.ok.inj h).symm
    · cases h

section
variable {b : Bytes} {s : SnpReport} {key : P384.Affine} {r : AttestationReport}
  (hp : parse b = .ok s) (hv : s.verify key = .ok r)

include hp hv in
theorem masterKey_of_signed : ∃ k, r.masterKey = .ok k ∧
    MasterKey.derive ((b.drop 0x90).take 48) (some (toString (Bytes.toNatLE (b.take 4)))) = .ok k := by
  have hs := parse_ok hp
  obtain rfl := verify_ok hv
  obtain ⟨k, hk, hd⟩ := AttestationReport.masterKey_of_verified (r := s.toReport true) rfl
  have hm : (s.toReport true).measurement.val = (b.drop 0x90).take 48 := hs.measurement
  have hn : (s.toReport true).platformVersion = some (toString (Bytes.toNatLE (b.take 4))) :=
    congrArg (fun n => some (toString n)) hs.version
  rw [hm, hn] at hd
  exact ⟨k, hk, hd⟩

include hp hv in
/-- The key of a verified report is derived from its signed identity and from nothing
else, and a report that is not verified has none. -/
theorem masterKey_identity :
    (∃ k, r.masterKey = .ok k ∧
      MasterKey.derive ((b.drop 0x90).take 48) (some (toString (Bytes.toNatLE (b.take 4)))) = .ok k) ∧
    (∀ b' s' key' r', parse b' = .ok s' → s'.verify key' = .ok r' → identity b' = identity b →
      r'.masterKey = r.masterKey) ∧
    identity s.signedBody.val = identity b ∧
    (∀ b' s' key' r', parse b' = .ok s' → s'.verify key' = .ok r' → b'.take 0x2a0 = b.take 0x2a0 →
      r'.masterKey = r.masterKey) ∧
    ∀ q : AttestationReport, q.verified = false → q.masterKey = .error .unverifiedReport := by
  have hsame : ∀ b' s' key' r', parse b' = .ok s' → s'.verify key' = .ok r' → identity b' = identity b →
      r'.masterKey = r.masterKey := by
    intro b' s' key' r' hp' hv' hi
    obtain ⟨k, hk, hd⟩ := masterKey_of_signed hp hv
    obtain ⟨k', hk', hd'⟩ := masterKey_of_signed hp' hv'
    obtain ⟨hver, hmeas⟩ := identity_inj (parse_ok hp).length (parse_ok hp').length hi
    rw [hver, hmeas, hd] at hd'
    rw [hk, hk', Except.ok.inj hd']
  refine ⟨masterKey_of_signed hp hv, hsame, ?_, ?_, fun _ => AttestationReport.masterKey_of_unverified⟩
  · rw [(parse_ok hp).signedBody, identity_take]
  · intro b' s' key' r' hp' hv' hb
    exact hsame b' s' key' r' hp' hv' (by rw [← identity_take b', hb, identity_take])

end

/-- A report whose signature was made with the key one and the nonce one. -/
def simplest : Bytes :=
  embed (body ⟨2, .ofBytes 48 (.replicate 48 0x5a), .ofBytes 64 [], ⟨0, 0, 0, 0⟩, .ofBytes 64 []⟩)
    (.ofBytes 96 (Ecdsa.Signature.toBytes ⟨P384.generator.x,
      0x4b7fbabec1ccebe067806943b9fbcb7aeda4177df2dbee93b1bca4c6b3999e8c8d9472d75e5aa7839f2b889e5a465f39⟩))

theorem masterKey_identity_simplest : ∃ s r k,
    parse simplest = .ok s ∧ s.verify P384.generator = .ok r ∧ r.masterKey = .ok k ∧
      MasterKey.derive (.replicate 48 0x5a) (some "2") = .ok k := by
  have hok : ((parse simplest).toOption.bind fun s => (s.verify P384.generator).toOption).isSome = true := by
    decide +kernel
  have hm : (simplest.drop 0x90).take 48 = .replicate 48 0x5a := by decide +kernel
  have hn : toString (Bytes.toNatLE (simplest.take 4)) = "2" := by decide +kernel
  cases hp : parse simplest with
  | error e =>
    rw [hp] at hok
    cases hok
  | ok s =>
    rw [hp] at hok
    cases hv : s.verify P384.generator with
    | error e => simp [Except.toOption, hv] at hok
    | ok r =>
      obtain ⟨k, hk, hd⟩ := (masterKey_identity hp hv).1
      rw [hm, hn] at hd
      exact ⟨s, r, k, rfl, hv, hk, hd⟩

end SnpReport

end AttestedVault
