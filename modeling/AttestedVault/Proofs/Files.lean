import AttestedVault.Disk

/-!
# What writing a file changes

A file that is kept in a directory which is made first: the directories grow,
the file gets its content, and every other file is as it was.
-/

namespace AttestedVault.Disk

variable {d e : Disk} {p q : Place} {dir path : String} {ns : List String}

/-! ## Following names -/

def Within (d e : Disk) : Prop := ∀ p, d.isDirectory p = true → e.isDirectory p = true

theorem Within.refl (d : Disk) : d.Within d := fun _ h => h

theorem Within.trans {f : Disk} (hd : d.Within e) (he : e.Within f) : d.Within f :=
  fun p h => he p (hd p h)

theorem walk_cons_ok {name : String} :
    d.walk p (name :: ns) = .ok q ↔
      d.isDirectory p = true ∧ name.utf8ByteSize ≤ maxName ∧ d.walk (step p name) ns = .ok q := by
  rw [walk]
  by_cases hp : d.isDirectory p = true
  · by_cases hn : maxName < name.utf8ByteSize
    · simp [hp, hn, Nat.not_le_of_lt hn]
    · simp [hp, hn, Nat.le_of_not_lt hn]
  · simp [hp]

theorem Within.walk (h : d.Within e) (hw : d.walk p ns = .ok q) : e.walk p ns = .ok q := by
  induction ns generalizing p with
  | nil => exact hw
  | cons name ns ih =>
    obtain ⟨hp, hn, hw⟩ := walk_cons_ok.mp hw
    exact walk_cons_ok.mpr ⟨h p hp, hn, ih hw⟩

theorem locate_ok : d.locate path = .ok q ↔ refusal? path = none ∧ d.walk [] (names path) = .ok q := by
  rw [locate]
  cases refusal? path with
  | none => simp
  | some e => simp

theorem Within.locate (h : d.Within e) (hl : d.locate path = .ok q) : e.locate path = .ok q := by
  obtain ⟨hr, hw⟩ := locate_ok.mp hl
  exact locate_ok.mpr ⟨hr, h.walk hw⟩

theorem Within.leadsIn (h : d.Within e) (hl : d.leadsIn ns = true) : e.leadsIn ns = true := by
  unfold Disk.leadsIn at hl ⊢
  cases hw : d.walk [] ns with
  | error err => simp [hw] at hl
  | ok p =>
    simp only [hw] at hl
    simp only [h.walk hw]
    exact h p hl

theorem read_ok {b : Bytes} :
    d.read path = .ok b ↔ ∃ p, d.locate path = .ok p ∧ d.file? p = some b := by
  unfold Disk.read
  cases hl : d.locate path with
  | error err => simp
  | ok p =>
    cases hf : d.file? p with
    | none => simp [hf]
    | some c => simp [hf]

/-! ## Making directories -/

/-- The files of the one disk are those of the other, which has its directories and more. -/
structure Grows (d e : Disk) : Prop where
  files : e.files = d.files
  sinks : e.sinks = d.sinks
  within : d.Within e

theorem Grows.refl (d : Disk) : d.Grows d := ⟨rfl, rfl, .refl d⟩

theorem Grows.trans {f : Disk} (hd : d.Grows e) (he : e.Grows f) : d.Grows f :=
  ⟨he.files.trans hd.files, he.sinks.trans hd.sinks, hd.within.trans he.within⟩

theorem Grows.file? (h : d.Grows e) (p : Place) : e.file? p = d.file? p := by
  unfold Disk.file?
  rw [h.files, h.sinks]

theorem make_grows (h : d.make ns = .ok e) : d.Grows e := by
  unfold make at h
  cases hw : d.walk [] ns with
  | error err => simp [hw] at h
  | ok p =>
    simp only [hw] at h
    split at h
    · cases h
    · cases h
      exact ⟨rfl, rfl, fun q hq => by simp_all [isDirectory]⟩

theorem make_leadsIn (h : d.make ns = .ok e) : e.leadsIn ns = true := by
  have hg := make_grows h
  unfold make at h
  cases hw : d.walk [] ns with
  | error err => simp [hw] at h
  | ok p =>
    simp only [hw] at h
    split at h
    · cases h
    · cases h
      unfold leadsIn
      simp only [hg.within.walk hw]
      simp [isDirectory]

theorem make_of_leadsIn (h : d.leadsIn ns = true) : d.make ns = .error .alreadyExists := by
  unfold leadsIn at h
  unfold make
  cases hw : d.walk [] ns with
  | error err => simp [hw] at h
  | ok p =>
    simp only [hw] at h
    simp [h]

theorem makeAll_cons (d : Disk) (last : String) (up : List String) :
    ∃ e, (e = d ∨ e = (d.makeAll up).1) ∧
      ((∃ f, e.make (last :: up).reverse = .ok f ∧ d.makeAll (last :: up) = (f, true)) ∨
        d.makeAll (last :: up) = (e, e.leadsIn (last :: up).reverse) ∨
        d.makeAll (last :: up) = (e, false)) := by
  rw [makeAll]
  -- only a missing directory on the way is made up for
  generalize (last :: up).reverse = ns
  cases hm : d.make ns with
  | ok f => exact ⟨d, .inl rfl, .inl ⟨f, hm, rfl⟩⟩
  | error err =>
    by_cases he : err = .notFound
    · subst he
      cases hu : d.makeAll up with
      | mk e made =>
        refine ⟨e, .inr rfl, ?_⟩
        cases made with
        | false => exact .inr (.inr rfl)
        | true =>
          cases hf : e.make ns with
          | ok f => exact .inl ⟨f, rfl, by simp only [hf]⟩
          | error err => exact .inr (.inl (by simp only [hf]))
    · refine ⟨d, .inl rfl, .inr (.inl ?_)⟩
      cases err with
      | notFound => exact absurd rfl he
      | _ => rfl

theorem makeAll_grows (d : Disk) (ns : List String) : d.Grows (d.makeAll ns).1 := by
  induction ns with
  | nil => exact .refl d
  | cons last up ih =>
    obtain ⟨e, he, hm⟩ := makeAll_cons d last up
    have hg : d.Grows e := by
      obtain rfl | rfl := he
      · exact .refl _
      · exact ih
    obtain ⟨f, hf, hm⟩ | hm | hm := hm
    · rw [hm]
      exact hg.trans (make_grows hf)
    · rwa [hm]
    · rwa [hm]

theorem makeAll_leadsIn (hn : ns ≠ []) (h : (d.makeAll ns).2 = true) :
    (d.makeAll ns).1.leadsIn ns.reverse = true := by
  cases ns with
  | nil => exact absurd rfl hn
  | cons last up =>
    obtain ⟨e, -, ⟨f, hf, hm⟩ | hm | hm⟩ := makeAll_cons d last up
    · rw [hm]
      exact make_leadsIn hf
    · rw [hm] at h ⊢
      exact h
    · rw [hm] at h
      cases h

theorem makeAll_of_leadsIn (h : d.leadsIn ns.reverse = true) : d.makeAll ns = (d, true) := by
  cases ns with
  | nil => rfl
  | cons last up =>
    unfold makeAll
    simp only [make_of_leadsIn h, h]

/-- The directory is there, so that nothing has to be made for it. -/
def Settled (d : Disk) (dir : String) : Prop :=
  dir = "" ∨ refusal? dir = none ∧ (steps dir = [] ∨ d.leadsIn (steps dir) = true)

theorem Settled.within (hs : d.Settled dir) (h : d.Within e) : e.Settled dir := by
  obtain hd | ⟨hr, hs | hs⟩ := hs
  · exact .inl hd
  · exact .inr ⟨hr, .inl hs⟩
  · exact .inr ⟨hr, .inr (h.leadsIn hs)⟩

theorem Settled.createDirectories (h : d.Settled dir) : d.createDirectories dir = (d, true) := by
  unfold Disk.createDirectories
  obtain hd | ⟨hr, hs⟩ := h
  · rw [if_pos hd]
  · by_cases hd : dir = ""
    · rw [if_pos hd]
    · rw [if_neg hd, hr]
      obtain hs | hs := hs
      · rw [hs]
        rfl
      · exact makeAll_of_leadsIn (by rwa [List.reverse_reverse])

theorem createDirectories_grows (d : Disk) (dir : String) : d.Grows (d.createDirectories dir).1 := by
  unfold createDirectories
  split
  · exact .refl d
  · split
    · exact .refl d
    · exact makeAll_grows d _

theorem settled_createDirectories (h : (d.createDirectories dir).2 = true) :
    (d.createDirectories dir).1.Settled dir := by
  unfold createDirectories at h ⊢
  by_cases hd : dir = ""
  · exact .inl hd
  · cases hr : refusal? dir with
    | some err => simp [hd, hr] at h
    | none =>
      simp only [hd, hr, Option.isSome_none, Bool.false_eq_true, ↓reduceIte] at h ⊢
      by_cases hs : steps dir = []
      · exact .inr ⟨hr, .inl hs⟩
      · refine .inr ⟨hr, .inr ?_⟩
        have hl := makeAll_leadsIn (by simpa using hs) h
        rwa [List.reverse_reverse] at hl

/-! ## Writing -/

theorem file?_store_self {b : Bytes} (h : p ∉ d.sinks) : (d.store p b).file? p = some b := by
  simp [store, file?, h]

theorem file?_store_of_ne {b : Bytes} (h : q ≠ p) : (d.store p b).file? q = d.file? q := by
  unfold store file?
  by_cases hp : p ∈ d.sinks
  · simp only [if_pos hp]
  · have hf : ((p, b) :: d.files.filter fun f => f.1 ≠ p).find? (fun f => f.1 = q) =
        d.files.find? fun f => f.1 = q := by
      rw [List.find?_cons_of_neg (by simpa using h.symm), List.find?_filter]
      congr 1
      funext f
      by_cases hq : f.1 = q
      · simp [hq, h]
      · simp [hq]
    simp only [if_neg hp, hf]

theorem write_cases (d : Disk) (path : String) (b : Bytes) :
    d.write path b = d ∨ ∃ p, d.locate path = .ok p ∧ d.write path b = d.store p b := by
  unfold write
  cases hl : d.locate path with
  | error err => exact .inl rfl
  | ok p =>
    by_cases hp : d.isDirectory p = true
    · exact .inl (if_pos hp)
    · exact .inr ⟨p, rfl, if_neg hp⟩

@[simp] theorem directories_store (d : Disk) (p : Place) (b : Bytes) :
    (d.store p b).directories = d.directories := by
  unfold store
  split <;> rfl

@[simp] theorem sinks_store (d : Disk) (p : Place) (b : Bytes) : (d.store p b).sinks = d.sinks := by
  unfold store
  split <;> rfl

@[simp] theorem directories_write (d : Disk) (path : String) (b : Bytes) :
    (d.write path b).directories = d.directories := by
  obtain h | ⟨p, -, h⟩ := write_cases d path b
  · rw [h]
  · rw [h, directories_store]

@[simp] theorem sinks_write (d : Disk) (path : String) (b : Bytes) :
    (d.write path b).sinks = d.sinks := by
  obtain h | ⟨p, -, h⟩ := write_cases d path b
  · rw [h]
  · rw [h, sinks_store]

theorem within_of_directories (h : d.directories = e.directories) : d.Within e := by
  intro p hp
  rwa [isDirectory, ← h]

theorem within_write (d : Disk) (path : String) (b : Bytes) : d.Within (d.write path b) :=
  within_of_directories (directories_write d path b).symm

theorem file?_write (d : Disk) (path : String) (b : Bytes) (q : Place) :
    (d.write path b).file? q = d.file? q ∨
      d.locate path = .ok q ∧ (d.write path b).file? q = some b := by
  obtain h | ⟨p, hl, h⟩ := write_cases d path b
  · exact .inl (by rw [h])
  · by_cases hq : q = p
    · subst hq
      by_cases hs : q ∈ d.sinks
      · exact .inl (by simp [h, store, hs])
      · exact .inr ⟨hl, by rw [h, file?_store_self hs]⟩
    · exact .inl (by rw [h, file?_store_of_ne hq])

theorem writeIn_eq (d : Disk) (dir path : String) (b : Bytes) :
    d.writeIn dir path b =
      if (d.createDirectories dir).2 then (d.createDirectories dir).1.write path b
      else (d.createDirectories dir).1 := by
  unfold writeIn
  cases hc : d.createDirectories dir with
  | mk e made =>
    cases made with
    | false => rfl
    | true => rfl

theorem within_writeIn (d : Disk) (dir path : String) (b : Bytes) :
    d.Within (d.writeIn dir path b) := by
  have hg := (createDirectories_grows d dir).within
  rw [writeIn_eq]
  split
  · exact hg.trans (within_write _ path b)
  · exact hg

theorem sinks_writeIn (d : Disk) (dir path : String) (b : Bytes) :
    (d.writeIn dir path b).sinks = d.sinks := by
  have hg := (createDirectories_grows d dir).sinks
  rw [writeIn_eq]
  split
  · rw [sinks_write, hg]
  · exact hg

theorem file?_writeIn (d : Disk) (dir path : String) (b : Bytes) (q : Place) :
    (d.writeIn dir path b).file? q = d.file? q ∨
      (d.writeIn dir path b).locate path = .ok q ∧ (d.writeIn dir path b).file? q = some b := by
  have hg := createDirectories_grows d dir
  rw [writeIn_eq]
  split
  · obtain h | ⟨hl, h⟩ := file?_write (d.createDirectories dir).1 path b q
    · exact .inl (h.trans (hg.file? q))
    · exact .inr ⟨(within_write _ path b).locate hl, h⟩
  · exact .inl (hg.file? q)

/-! ## Files that can be kept -/

def Keeps (d : Disk) (dir path : String) : Prop :=
  ∀ b, (d.writeIn dir path b).read path = .ok b

theorem keeps_iff : d.Keeps dir path ↔
    (d.createDirectories dir).2 = true ∧ ∃ p, (d.createDirectories dir).1.locate path = .ok p ∧
      (d.createDirectories dir).1.isDirectory p = false ∧ p ∉ d.sinks := by
  have hs := (createDirectories_grows d dir).sinks
  constructor
  · intro h
    -- two contents cannot both be read from a disk that neither of them changes
    have hne : ∀ e : Disk, ¬ ∀ b, d.writeIn dir path b = e := by
      intro e he
      have h₀ := he [] ▸ h []
      have h₁ := he [0] ▸ h [0]
      rw [h₀] at h₁
      cases h₁
    have hc : (d.createDirectories dir).2 = true := by
      rw [← Bool.not_eq_false]
      intro hc
      exact hne (d.createDirectories dir).1 fun b => by simp [writeIn_eq, hc]
    have hw : ∀ b, d.writeIn dir path b = (d.createDirectories dir).1.write path b :=
      fun b => by rw [writeIn_eq, if_pos hc]
    refine ⟨hc, ?_⟩
    cases hl : (d.createDirectories dir).1.locate path with
    | error err => exact absurd (fun b => by rw [hw, write, hl]) (hne (d.createDirectories dir).1)
    | ok p =>
      refine ⟨p, rfl, ?_, fun hp => ?_⟩
      · rw [← Bool.not_eq_true]
        intro hp
        exact hne _ fun b => by rw [hw, write, hl]; exact if_pos hp
      · refine hne (d.createDirectories dir).1 fun b => ?_
        rw [hw, write, hl]
        simp only [store, hs, if_pos hp, ite_self]
  · rintro ⟨hc, p, hl, hp, hn⟩ b
    have hw : d.writeIn dir path b = (d.createDirectories dir).1.store p b := by
      rw [writeIn_eq, if_pos hc, write, hl]
      simp [hp]
    refine read_ok.mpr ⟨p, ?_, ?_⟩
    · rw [hw]
      exact (within_of_directories (directories_store _ p b).symm).locate hl
    · rw [hw, file?_store_self (hs ▸ hn)]

theorem Keeps.writeIn (h : d.Keeps dir path) (path' : String) (b : Bytes) :
    (d.writeIn dir path' b).Keeps dir path := by
  obtain ⟨hc, p, hl, hp, hn⟩ := keeps_iff.mp h
  have hw : d.writeIn dir path' b = (d.createDirectories dir).1.write path' b := by
    rw [writeIn_eq, if_pos hc]
  have hs : (d.writeIn dir path' b).Settled dir :=
    hw ▸ (settled_createDirectories hc).within (within_write _ path' b)
  refine keeps_iff.mpr ?_
  rw [hs.createDirectories]
  refine ⟨rfl, p, ?_, ?_, ?_⟩
  · rw [hw]
    exact (within_write _ path' b).locate hl
  · rw [hw, isDirectory, directories_write]
    exact hp
  · rwa [sinks_writeIn]

/-! ## Paths that lead apart -/

/-- No disk leads these paths to the same place. -/
def Apart (path path' : String) : Prop :=
  ∀ (d : Disk) (p : Place), d.locate path = .ok p → d.locate path' ≠ .ok p

theorem read_writeIn {path' : String} {b c : Bytes} (ha : Apart path path')
    (h : d.read path = .ok c) : (d.writeIn dir path' b).read path = .ok c := by
  obtain ⟨p, hl, hf⟩ := read_ok.mp h
  have hl' := (within_writeIn d dir path' b).locate hl
  refine read_ok.mpr ⟨p, hl', ?_⟩
  obtain h | ⟨h, -⟩ := file?_writeIn d dir path' b p
  · rw [h, hf]
  · exact absurd h (ha _ _ hl')

theorem walk_append (d : Disk) (p : Place) (ns ms : List String) :
    d.walk p (ns ++ ms) = (d.walk p ns).bind fun q => d.walk q ms := by
  induction ns generalizing p with
  | nil => rfl
  | cons name ns ih =>
    simp only [List.cons_append, walk]
    by_cases hp : d.isDirectory p = true
    · by_cases hn : maxName < name.utf8ByteSize
      · simp [hp, hn, Except.bind]
      · simp [hp, hn, ih]
    · simp [hp, Except.bind]

def Proper (name : String) : Prop := name ≠ "" ∧ name ≠ "." ∧ name ≠ ".."

theorem proper_append (name : String) {ending : String} (h : 2 < ending.length) :
    Proper (name ++ ending) := by
  have hl : 2 < (name ++ ending).length := by
    rw [String.length_append]
    omega
  refine ⟨?_, ?_, ?_⟩ <;>
  · intro he
    rw [he] at hl
    revert hl
    decide

theorem getLast?_of_walk {name : String} (hn : Proper name) (h : d.walk p (ns ++ [name]) = .ok q) :
    q.getLast? = some name := by
  rw [walk_append] at h
  cases hw : d.walk p ns with
  | error err => simp [hw, Except.bind] at h
  | ok r =>
    simp only [hw, Except.bind] at h
    obtain ⟨-, -, h⟩ := walk_cons_ok.mp h
    cases h
    simp [step, hn.1, hn.2.1, hn.2.2]

theorem cuts_ne_nil (l : List Char) : cuts l ≠ [] := by
  fun_cases cuts l <;> simp

theorem cuts_cons {c : Char} (h : c ≠ '/') {n : List Char} {ns : List (List Char)} {l : List Char}
    (hl : cuts l = n :: ns) : cuts (c :: l) = (c :: n) :: ns := by
  simp [cuts, hl]

theorem cuts_slash_cons (l : List Char) : cuts ('/' :: l) = [] :: cuts l := by
  simp [cuts]

theorem cuts_slash (l m : List Char) : cuts (l ++ '/' :: m) = cuts l ++ cuts m := by
  induction l with
  | nil => exact cuts_slash_cons m
  | cons c l ih =>
    by_cases hc : c = '/'
    · subst hc
      rw [List.cons_append, cuts_slash_cons, cuts_slash_cons, ih, List.cons_append]
    · cases hl : cuts l with
      | nil => exact absurd hl (cuts_ne_nil l)
      | cons n ns =>
        rw [cuts_cons hc hl, List.cons_append, List.cons_append]
        exact cuts_cons hc (by rw [ih, hl, List.cons_append])

theorem cuts_plain {l : List Char} (h : '/' ∉ l) : cuts l = [l] := by
  induction l with
  | nil => rfl
  | cons c l ih =>
    rw [List.mem_cons, not_or] at h
    exact cuts_cons (Ne.symm h.1) (ih h.2)

theorem cuts_append_plain (l : List Char) {m : List Char} (h : '/' ∉ m) :
    ∃ ns n, cuts (l ++ m) = ns ++ [n ++ m] := by
  induction l with
  | nil => exact ⟨[], [], cuts_plain h⟩
  | cons c l ih =>
    obtain ⟨ns, n, hn⟩ := ih
    by_cases hc : c = '/'
    · exact ⟨[] :: ns, n, by rw [hc, List.cons_append, cuts_slash_cons, hn, List.cons_append]⟩
    · cases ns with
      | nil => exact ⟨[], c :: n, cuts_cons hc hn⟩
      | cons k ns => exact ⟨(c :: k) :: ns, n, cuts_cons hc hn⟩

theorem toList_joinPath (dir name : String) : (joinPath dir name).toList = name.toList ∨
    ∃ up, (joinPath dir name).toList = up ++ '/' :: name.toList := by
  unfold joinPath
  split
  · exact .inl rfl
  · split
    · rename_i hl
      obtain ⟨up, hu⟩ := List.getLast?_eq_some_iff.mp hl
      exact .inr ⟨up, by rw [String.toList_append, hu, List.append_assoc]; rfl⟩
    · exact .inr ⟨dir.toList, by simp [String.toList_append]⟩

theorem names_joinPath {name : String} (h : '/' ∉ name.toList) :
    ∃ ns, names (joinPath dir name) = ns ++ [name] := by
  unfold names
  obtain hj | ⟨up, hj⟩ := toList_joinPath dir name
  · exact ⟨[], by rw [hj, cuts_plain h]; simp⟩
  · exact ⟨(cuts up).map String.ofList, by rw [hj, cuts_slash, cuts_plain h]; simp⟩

theorem names_joinPath_append (dir name : String) {ending : String} (h : '/' ∉ ending.toList) :
    ∃ ns n, names (joinPath dir (name ++ ending)) = ns ++ [n ++ ending] := by
  have hj : ∃ up, (joinPath dir (name ++ ending)).toList = up ++ ending.toList := by
    obtain hj | ⟨up, hj⟩ := toList_joinPath dir (name ++ ending)
    · exact ⟨name.toList, by rw [hj, String.toList_append]⟩
    · exact ⟨up ++ '/' :: name.toList, by rw [hj, String.toList_append]; simp⟩
  obtain ⟨up, hj⟩ := hj
  obtain ⟨ns, n, hn⟩ := cuts_append_plain up h
  refine ⟨ns.map String.ofList, String.ofList n, ?_⟩
  unfold names
  rw [hj, hn]
  simp [String.ofList_append]

theorem getLast?_of_locate {name : String} (hn : Proper name) (hp : names path = ns ++ [name])
    (h : d.locate path = .ok p) : p.getLast? = some name :=
  getLast?_of_walk hn (hp ▸ (locate_ok.mp h).2)

theorem apart_of_names {path' a b : String} {ms : List String} (ha : Proper a) (hb : Proper b)
    (hab : a ≠ b) (hp : names path = ns ++ [a]) (hp' : names path' = ms ++ [b]) :
    Apart path path' := by
  intro d p h h'
  have he := (getLast?_of_locate ha hp h).symm.trans (getLast?_of_locate hb hp' h')
  exact hab (Option.some.inj he)

/-! ## Plain names -/

theorem walk_joinPath {name : String} (hn : '/' ∉ name.toList) (hd : dir ≠ "")
    (h : d.walk [] (names dir) = .ok p) :
    d.walk [] (names (joinPath dir name)) = d.walk p [name] := by
  have hslash : ¬ "/".toList.isPrefixOf name.toList := by
    intro hp
    obtain ⟨rest, hr⟩ := List.isPrefixOf_iff_prefix.mp hp
    exact hn (hr ▸ List.mem_cons_self)
  unfold joinPath
  rw [if_neg (not_or.mpr ⟨hslash, hd⟩)]
  split
  · -- the slash at the end leaves an empty name, which leads nowhere
    rename_i hl
    obtain ⟨up, hu⟩ := List.getLast?_eq_some_iff.mp hl
    have hdir : names dir = (cuts up).map String.ofList ++ [""] := by
      rw [names, hu, cuts_slash]
      simp [cuts]
    have hname : names (dir ++ name) = (cuts up).map String.ofList ++ [name] := by
      rw [names, String.toList_append, hu, List.append_assoc, List.singleton_append, cuts_slash,
        cuts_plain hn]
      simp
    rw [hdir, walk_append] at h
    rw [hname, walk_append]
    cases hw : d.walk [] ((cuts up).map String.ofList) with
    | error err =>
      rw [hw] at h
      cases h
    | ok r =>
      rw [hw] at h
      obtain ⟨-, -, h⟩ := walk_cons_ok.mp h
      cases h
      rfl
  · have hname : names (dir ++ "/" ++ name) = names dir ++ [name] := by
      rw [names, String.append_assoc, String.toList_append, String.toList_append]
      simp [cuts_slash, cuts_plain hn, names]
    rw [hname, walk_append, h]
    rfl

/-- The directory can be made, and there is room for a file of this name in it. -/
structure Takes (d : Disk) (dir name : String) : Prop where
  made : (d.createDirectories dir).2 = true
  short : name.utf8ByteSize ≤ maxName
  path : refusal? (joinPath dir name) = none
  place : ∃ p, (d.createDirectories dir).1.locate dir = .ok p ∧
    (d.createDirectories dir).1.isDirectory p = true ∧
    (d.createDirectories dir).1.isDirectory (p ++ [name]) = false ∧ p ++ [name] ∉ d.sinks

theorem keeps_joinPath {name : String} (hn : '/' ∉ name.toList) (hp : Proper name)
    (h : d.Takes dir name) : d.Keeps dir (joinPath dir name) := by
  obtain ⟨hc, hl, hr, p, hd, hdir, hfree, hs⟩ := h
  obtain ⟨hrd, hw⟩ := locate_ok.mp hd
  have hne : dir ≠ "" := by
    rintro rfl
    cases hrd
  refine keeps_iff.mpr ⟨hc, p ++ [name], locate_ok.mpr ⟨hr, ?_⟩, hfree, hs⟩
  rw [walk_joinPath hn hne hw]
  exact walk_cons_ok.mpr ⟨hdir, hl, by simp [walk, step, hp.1, hp.2.1, hp.2.2]⟩

end AttestedVault.Disk
