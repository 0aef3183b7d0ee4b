import AttestedVault.Proofs.CacheFiles
import AttestedVault.Proofs.Labels

/-!
# Locations of certificates

A chip's certificate at one set of firmware levels is asked for under a URL of
its own and kept under a path of its own. Paths are compared name by name, so
that no choice of a directory or a product makes two of them one.
-/

namespace AttestedVault

/-! ## Comparing paths -/

namespace Disk

/-- Several slashes in a row count as one and those at the end as none. A single dot
counts only at the beginning. -/
structure SamePath (path path' : String) : Prop where
  root : path.toList.head? = some '/' ↔ path'.toList.head? = some '/'
  dot : (names path).head? = some "." ↔ (names path').head? = some "."
  steps : Disk.steps path = Disk.steps path'

theorem SamePath.refl (path : String) : SamePath path path := ⟨.rfl, .rfl, rfl⟩

variable {path path' name name' : String} {ns ms : List String}

theorem getLast?_steps (hn : Proper name) (h : names path = ns ++ [name]) :
    (steps path).getLast? = some name := by
  simp [steps, h, List.filter_append, hn.1, hn.2.1]

theorem SamePath.last_eq (h : SamePath path path') (hn : Proper name) (hn' : Proper name')
    (hp : names path = ns ++ [name]) (hp' : names path' = ms ++ [name']) : name = name' := by
  have hl := getLast?_steps hn hp
  rw [h.steps, getLast?_steps hn' hp', Option.some_inj] at hl
  exact hl.symm

end Disk

namespace KdsClient

/-! ## Numbers of at least two digits -/

theorem toList_twoDigits (n : Nat) : (twoDigits n).toList =
    if n < 10 then '0' :: Nat.toDigits 10 n else Nat.toDigits 10 n := by
  unfold twoDigits
  split <;> simp [String.toList_append]

theorem ofDigits_twoDigits (n : Nat) : Text.ofDigits (twoDigits n).toList = n := by
  rw [toList_twoDigits]
  split
  · -- the zero in front adds nothing
    exact Text.ofDigits_toDigits n
  · exact Text.ofDigits_toDigits n

theorem twoDigits_injective : Function.Injective fun n => (twoDigits n).toList :=
  Function.LeftInverse.injective ofDigits_twoDigits

theorem not_mem_twoDigits {c : Char} (h : c.isDigit = false) (n : Nat) : c ∉ (twoDigits n).toList := by
  have hz : c ≠ '0' := by
    rintro rfl
    cases h
  rw [toList_twoDigits]
  split
  · exact List.not_mem_cons_of_ne_of_not_mem hz (not_mem_toDigits h n)
  · exact not_mem_toDigits h n

/-! ## URLs -/

theorem toList_vcekUrl (c : KdsClient) (chip : Bytes) (tcb : TcbVersion) : (c.vcekUrl chip tcb).toList =
    (c.baseUrl ++ "/vcek/v1/" ++ c.product ++ "/").toList ++ ((Hex.encode chip).toList ++
      '?' :: ("blSPL=".toList ++ ((twoDigits tcb.bootLoader.toNat).toList ++
        '&' :: ("teeSPL=".toList ++ ((twoDigits tcb.tee.toNat).toList ++
          '&' :: ("snpSPL=".toList ++ ((twoDigits tcb.snp.toNat).toList ++
            '&' :: ("ucodeSPL=".toList ++ (twoDigits tcb.microcode.toNat).toList)))))))) := by
  simp [vcekUrl, String.toList_append]

variable {c : KdsClient} {chip chip' : Bytes} {tcb tcb' : TcbVersion}

theorem vcekUrl_injective (h : c.vcekUrl chip tcb = c.vcekUrl chip' tcb') : chip = chip' ∧ tcb = tcb' := by
  have he := congrArg String.toList h
  rw [toList_vcekUrl, toList_vcekUrl] at he
  -- what stands before the chip is the same, and no part holds the mark that ends it
  have hx := Hex.not_mem_encode (c := '?') (by decide)
  have hd := not_mem_twoDigits (c := '&') rfl
  obtain ⟨hc, he⟩ := cut_inj_of_not_mem (List.append_cancel_left he) (hx _) (hx _)
  obtain ⟨hb, he⟩ := cut_inj_of_not_mem (List.append_cancel_left he) (hd _) (hd _)
  obtain ⟨ht, he⟩ := cut_inj_of_not_mem (List.append_cancel_left he) (hd _) (hd _)
  obtain ⟨hs, he⟩ := cut_inj_of_not_mem (List.append_cancel_left he) (hd _) (hd _)
  exact eq_of_written twoDigits_injective hc hb ht hs (List.append_cancel_left he)

/-! ## Paths -/

theorem samePath_vcekPath (h : Disk.SamePath (c.vcekPath chip tcb) (c.vcekPath chip' tcb')) :
    chip = chip' ∧ tcb = tcb' := by
  obtain ⟨ns, hn⟩ := c.names_vcekPath chip tcb
  obtain ⟨ms, hm⟩ := c.names_vcekPath chip' tcb'
  exact vcekFile_injective (h.last_eq (proper_vcekFile _ _) (proper_vcekFile _ _) hn hm)

theorem not_samePath_chainPath (c : KdsClient) (chip : Bytes) (tcb : TcbVersion) :
    ¬ Disk.SamePath c.chainPath (c.vcekPath chip tcb) := by
  intro h
  obtain ⟨ns, n, hn⟩ := c.names_chainPath
  obtain ⟨ms, hm⟩ := c.names_vcekPath chip tcb
  exact append_ne_vcekFile n chip tcb
    (h.last_eq (Disk.proper_append _ (by decide)) (proper_vcekFile _ _) hn hm)

/-- Only one chip at one set of firmware levels has a given URL, a given path or a given
place on any disk, and none of them has the path or the place of the bundle. -/
theorem locations_differ (c : KdsClient) (chip chip' : Bytes) (tcb tcb' : TcbVersion) :
    (c.vcekUrl chip tcb = c.vcekUrl chip' tcb' ↔ chip = chip' ∧ tcb = tcb') ∧
    (Disk.SamePath (c.vcekPath chip tcb) (c.vcekPath chip' tcb') ↔ chip = chip' ∧ tcb = tcb') ∧
    ((chip = chip' ∧ tcb = tcb') ∨ Disk.Apart (c.vcekPath chip tcb) (c.vcekPath chip' tcb')) ∧
    ¬ Disk.SamePath c.chainPath (c.vcekPath chip tcb) ∧
    Disk.Apart c.chainPath (c.vcekPath chip tcb) := by
  refine ⟨⟨vcekUrl_injective, ?_⟩, ⟨samePath_vcekPath, ?_⟩, ?_, c.not_samePath_chainPath chip tcb,
    c.apart_chainPath chip tcb⟩
  · rintro ⟨rfl, rfl⟩
    rfl
  · rintro ⟨rfl, rfl⟩
    exact .refl _
  · by_cases h : (chip', tcb') = (chip, tcb)
    · obtain ⟨rfl, rfl⟩ := Prod.mk.inj h
      exact .inl ⟨rfl, rfl⟩
    · exact .inr (c.apart_vcekPath h)

end KdsClient

end AttestedVault
