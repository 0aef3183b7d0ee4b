import AttestedVault.Attestation.Kds
import AttestedVault.Proofs.Files
import AttestedVault.Proofs.Written

/-!
# The files of the cache

Each chip has a file of its own at each of its firmware levels, and none of them
is the file of the bundle.
-/

namespace AttestedVault

/-! ## Names in parts -/

theorem Hex.not_mem_encode {c : Char} (h : ∀ n < 16, digit n ≠ c) (b : Bytes) :
    c ∉ (encode b).toList := by
  intro hc
  rw [encode, String.toList_ofList] at hc
  obtain ⟨n, hn, rfl⟩ := mem_digits hc
  exact h n hn rfl

theorem not_mem_toDigits {c : Char} (h : c.isDigit = false) (n : Nat) : c ∉ Nat.toDigits 10 n := by
  intro hc
  have hd := Nat.isDigit_of_mem_toDigits (by decide) (by decide) hc
  rw [h] at hd
  cases hd

theorem toDigits_injective : Function.Injective (Nat.toDigits 10) := by
  intro n n' h
  rw [← Nat.ofDigitChars_ten_toDigits (n := n), h, Nat.ofDigitChars_ten_toDigits]

/-! ## The names -/

namespace KdsClient

theorem eq_of_written {f : Nat → List Char} (hf : Function.Injective f) {chip chip' : Bytes}
    {tcb tcb' : TcbVersion} (hc : (Hex.encode chip).toList = (Hex.encode chip').toList)
    (hb : f tcb.bootLoader.toNat = f tcb'.bootLoader.toNat) (ht : f tcb.tee.toNat = f tcb'.tee.toNat)
    (hs : f tcb.snp.toNat = f tcb'.snp.toNat) (hm : f tcb.microcode.toNat = f tcb'.microcode.toNat) :
    chip = chip' ∧ tcb = tcb' := by
  obtain ⟨b, t, s, m⟩ := tcb
  obtain ⟨b', t', s', m'⟩ := tcb'
  obtain rfl := UInt8.toNat_inj.mp (hf hb)
  obtain rfl := UInt8.toNat_inj.mp (hf ht)
  obtain rfl := UInt8.toNat_inj.mp (hf hs)
  obtain rfl := UInt8.toNat_inj.mp (hf hm)
  exact ⟨Hex.encode_injective (String.toList_inj.mp hc), rfl⟩

theorem toList_vcekFile (chip : Bytes) (tcb : TcbVersion) : (vcekFile chip tcb).toList =
    (Hex.encode chip).toList ++ '-' :: (Nat.toDigits 10 tcb.bootLoader.toNat ++
      '-' :: (Nat.toDigits 10 tcb.tee.toNat ++ '-' :: (Nat.toDigits 10 tcb.snp.toNat ++
        '-' :: (Nat.toDigits 10 tcb.microcode.toNat ++ ".der".toList)))) := by
  simp [vcekFile, String.toList_append]

theorem vcekFile_injective {chip chip' : Bytes} {tcb tcb' : TcbVersion}
    (h : vcekFile chip tcb = vcekFile chip' tcb') : chip = chip' ∧ tcb = tcb' := by
  have he := congrArg String.toList h
  rw [toList_vcekFile, toList_vcekFile] at he
  have hx := Hex.not_mem_encode (c := '-') (by decide)
  have hd := not_mem_toDigits (c := '-') rfl
  obtain ⟨hc, he⟩ := cut_inj_of_not_mem he (hx _) (hx _)
  obtain ⟨hb, he⟩ := cut_inj_of_not_mem he (hd _) (hd _)
  obtain ⟨ht, he⟩ := cut_inj_of_not_mem he (hd _) (hd _)
  obtain ⟨hs, he⟩ := cut_inj_of_not_mem he (hd _) (hd _)
  exact eq_of_written toDigits_injective hc hb ht hs (List.append_cancel_right he)

theorem slash_not_mem_vcekFile (chip : Bytes) (tcb : TcbVersion) : '/' ∉ (vcekFile chip tcb).toList := by
  have hx := Hex.not_mem_encode (c := '/') (by decide) chip
  have hd := not_mem_toDigits (c := '/') rfl
  rw [toList_vcekFile]
  simp [hx, hd]

theorem proper_vcekFile (chip : Bytes) (tcb : TcbVersion) : Disk.Proper (vcekFile chip tcb) :=
  Disk.proper_append _ (by decide)

/-! ## The places -/

theorem names_vcekPath (c : KdsClient) (chip : Bytes) (tcb : TcbVersion) :
    ∃ ns, Disk.names (c.vcekPath chip tcb) = ns ++ [vcekFile chip tcb] :=
  Disk.names_joinPath (slash_not_mem_vcekFile chip tcb)

theorem apart_vcekPath (c : KdsClient) {chip chip' : Bytes} {tcb tcb' : TcbVersion}
    (h : (chip', tcb') ≠ (chip, tcb)) : Disk.Apart (c.vcekPath chip tcb) (c.vcekPath chip' tcb') := by
  obtain ⟨ns, hn⟩ := c.names_vcekPath chip tcb
  obtain ⟨ms, hm⟩ := c.names_vcekPath chip' tcb'
  refine Disk.apart_of_names (proper_vcekFile _ _) (proper_vcekFile _ _) (fun he => h ?_) hn hm
  obtain ⟨hc, ht⟩ := vcekFile_injective he
  rw [hc, ht]

theorem names_chainPath (c : KdsClient) :
    ∃ ns n, Disk.names c.chainPath = ns ++ [n ++ "-cert_chain.pem"] :=
  Disk.names_joinPath_append c.cacheDir c.product (by decide)

theorem append_ne_vcekFile (n : String) (chip : Bytes) (tcb : TcbVersion) :
    n ++ "-cert_chain.pem" ≠ vcekFile chip tcb := by
  intro he
  have hl : (n ++ "-cert_chain.pem").toList.getLast? = some 'm' := by
    simp [String.toList_append]
  rw [he, vcekFile, String.toList_append, List.getLast?_append] at hl
  cases hl

theorem apart_chainPath (c : KdsClient) (chip : Bytes) (tcb : TcbVersion) :
    Disk.Apart c.chainPath (c.vcekPath chip tcb) := by
  obtain ⟨ns, n, hn⟩ := c.names_chainPath
  obtain ⟨ms, hm⟩ := c.names_vcekPath chip tcb
  exact Disk.apart_of_names (Disk.proper_append _ (by decide)) (proper_vcekFile _ _)
    (append_ne_vcekFile n chip tcb) hn hm

variable {d : Disk} {c : KdsClient}

theorem keeps_vcekPath {chip : Bytes} {tcb : TcbVersion} (h : d.Takes c.cacheDir (vcekFile chip tcb)) :
    d.Keeps c.cacheDir (c.vcekPath chip tcb) :=
  Disk.keeps_joinPath (slash_not_mem_vcekFile chip tcb) (proper_vcekFile chip tcb) h

theorem keeps_chainPath (hp : '/' ∉ c.product.toList) (h : d.Takes c.cacheDir (c.product ++ "-cert_chain.pem")) :
    d.Keeps c.cacheDir c.chainPath :=
  Disk.keeps_joinPath (by simp [String.toList_append, hp]) (Disk.proper_append _ (by decide)) h

end KdsClient

end AttestedVault
