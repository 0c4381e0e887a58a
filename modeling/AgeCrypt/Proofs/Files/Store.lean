import AgeCrypt.Files.Store

/-!
# What a change of one file keeps

A file is put only where there is no directory.  Then directories stay directories, every path that
led somewhere leads there still, and no other file changes (`ChangedAt`).  So what is known of paths
and files before a command is known after it, but for the file it wrote.
-/

namespace AgeCrypt
namespace FileStore

variable {s t u : FileStore} {p q r : Place} {path : String}

/-! ## Directories and paths -/

theorem isDirectory_put_self (s : FileStore) (p : Place) (b : Bytes) :
    (s.put p b).isDirectory p = false := by
  simp only [isDirectory, contents?_put_self, Option.isNone_some, Bool.false_and]

/-- Directories stay directories. -/
theorem isDirectory_put (hfile : s.isDirectory p = false) (b : Bytes)
    (h : s.isDirectory q = true) : (s.put p b).isDirectory q = true := by
  have hne : q ≠ p := by
    rintro rfl
    cases h.symm.trans hfile
  simp only [isDirectory, contents?_put_of_ne s b hne, Bool.and_eq_true, Bool.or_eq_true] at h ⊢
  refine ⟨h.1, h.2.imp_right fun hany => ?_⟩
  rcases List.any_eq_true.1 hany with ⟨f, hf, hprefix⟩
  -- the file on the way to which the directory lies is still there, maybe with other contents
  rw [List.any_eq_true]
  by_cases hp : f.1 = p
  · exact ⟨(p, b), List.mem_cons_self .., hp ▸ hprefix⟩
  · refine ⟨f, List.mem_cons_of_mem _ ?_, hprefix⟩
    rw [List.mem_filter]
    exact ⟨hf, decide_eq_true hp⟩

/-- Making a file does not change where paths lead, as long as it is not put in the place of a
directory. -/
theorem walk_put (hfile : s.isDirectory p = false) (b : Bytes) {parts : List String}
    (h : s.walk q parts = .ok r) : (s.put p b).walk q parts = .ok r := by
  fun_induction walk s q parts with
  | case1 q =>
      rw [walk]
      exact h
  | case2 q part parts hdir hvoid ih =>
      rw [walk, if_pos (isDirectory_put hfile b hdir), if_pos hvoid]
      exact ih h
  | case3 q parts hdir hvoid ih =>
      rw [walk, if_pos (isDirectory_put hfile b hdir), if_neg hvoid, if_pos rfl]
      exact ih h
  | case4 => cases h
  | case5 q part parts hdir hvoid hup hlong ih =>
      rw [walk, if_pos (isDirectory_put hfile b hdir), if_neg hvoid, if_neg hup, if_neg hlong]
      exact ih h
  | case6 => cases h
  | case7 => cases h

/-- A path leads where it led. -/
theorem locate_put (hfile : s.isDirectory p = false) (b : Bytes) (h : s.locate path = .ok q) :
    (s.put p b).locate path = .ok q := by
  unfold locate follow at h ⊢
  split at h
  · cases h
  · rename_i hzero
    split at h
    · cases h
    · rename_i hempty
      split at h
      · cases h
      · rename_i hlong
        rw [if_neg hzero, if_neg hempty, if_neg hlong]
        exact walk_put hfile b h

/-! ## Stores that differ in one file -/

/-- `t` is `s` with another file at `p`, if with any change at all. -/
structure ChangedAt (p : Place) (s t : FileStore) : Prop where
  locate_eq : ∀ {path q}, s.locate path = .ok q → t.locate path = .ok q
  contents_eq : ∀ {q}, q ≠ p → t.contents? q = s.contents? q

/-- Putting a file changes nothing beside it. -/
theorem changedAt_put (hfile : s.isDirectory p = false) (b : Bytes) : ChangedAt p s (s.put p b) where
  locate_eq := locate_put hfile b
  contents_eq := contents?_put_of_ne s b

/-- Two changes of one file are a change of it. -/
theorem ChangedAt.trans (h : ChangedAt p s t) (h' : ChangedAt p t u) : ChangedAt p s u where
  locate_eq := fun hq => h'.locate_eq (h.locate_eq hq)
  contents_eq := fun hne => (h'.contents_eq hne).trans (h.contents_eq hne)

/-- Making a file and filling it changes that file. -/
theorem changedAt_put_put (hfile : s.isDirectory p = false) (b c : Bytes) :
    ChangedAt p s ((s.put p b).put p c) :=
  (changedAt_put hfile b).trans (changedAt_put (isDirectory_put_self s p b) c)

/-! ## Files -/

theorem holds_of_contents {b : Bytes} (h : s.contents? p = some b) : s.holds p = true := by
  rw [holds, h]
  rfl

/-- What is somewhere and no directory is a file, and can be read. -/
theorem exists_readPlace_eq_ok (h : s.holds p = true) (hfile : s.isDirectory p = false) :
    ∃ b, s.readPlace p = .ok b := by
  rw [holds, hfile, Bool.or_false, Option.isSome_iff_exists] at h
  rcases h with ⟨b, hb⟩
  exact ⟨b, by rw [readPlace, hb]⟩

theorem read_of_openPlace (h : s.openPlace path = .ok p) : s.read path = s.readPlace p := by
  rw [read, h]

/-- Only what is in a file is read: a directory has nothing to read. -/
theorem readPlace_eq_ok_iff {b : Bytes} : s.readPlace p = .ok b ↔ s.contents? p = some b := by
  unfold readPlace
  split
  · rename_i c hc
    rw [hc, Except.ok.injEq, Option.some_inj]
  · rename_i hnone
    rw [hnone]
    exact ⟨fun h => (by cases h), fun h => (by cases h)⟩

/-- A path can be opened if it leads somewhere and something is there. -/
theorem openPlace_eq_ok_iff :
    s.openPlace path = .ok p ↔ s.locate path = .ok p ∧ s.holds p = true := by
  unfold openPlace
  split
  · rename_i q hq
    rw [hq, Except.ok.injEq]
    split
    · rename_i hholds
      rw [Except.ok.injEq]
      exact ⟨fun h => ⟨h, h ▸ hholds⟩, fun h => h.1⟩
    · rename_i hnothing
      exact ⟨fun h => (by cases h), fun h => absurd (h.1 ▸ h.2) hnothing⟩
  · rename_i e he
    rw [he]
    exact ⟨fun h => (by cases h), fun h => (by cases h.1)⟩

theorem openPlace_of_contents {b : Bytes} (hpath : s.locate path = .ok p)
    (h : s.contents? p = some b) : s.openPlace path = .ok p :=
  openPlace_eq_ok_iff.2 ⟨hpath, holds_of_contents h⟩

/-- What was read is in the file that the path leads to. -/
theorem of_read_ok {b : Bytes} (h : s.read path = .ok b) :
    ∃ p, s.locate path = .ok p ∧ s.contents? p = some b := by
  unfold read at h
  split at h
  · rename_i p hopened
    exact ⟨p, (openPlace_eq_ok_iff.1 hopened).1, readPlace_eq_ok_iff.1 h⟩
  · cases h

/-- What is in the file that a path leads to can be read. -/
theorem read_of_contents {b : Bytes} (hpath : s.locate path = .ok p)
    (h : s.contents? p = some b) : s.read path = .ok b :=
  (read_of_openPlace (openPlace_of_contents hpath h)).trans (readPlace_eq_ok_iff.2 h)

/-- A file elsewhere is read as before. -/
theorem ChangedAt.read_eq (h : ChangedAt p s t) {b : Bytes} (hread : s.read path = .ok b)
    (helsewhere : s.locate path ≠ .ok p) : t.read path = .ok b := by
  rcases of_read_ok hread with ⟨q, hpath, hcontents⟩
  have hne : q ≠ p := fun hq => helsewhere (hq ▸ hpath)
  exact read_of_contents (h.locate_eq hpath) ((h.contents_eq hne).trans hcontents)

theorem locate_of_locateFile (h : s.locateFile path = .ok p) : s.locate path = .ok p := by
  unfold locateFile at h
  split at h
  · exact h
  · split at h <;> cases h

/-- A file is made where its path leads, unless that is a directory. -/
theorem of_create_ok (h : s.create path = .ok (p, t)) :
    s.locate path = .ok p ∧ s.isDirectory p = false ∧ t = s.put p [] := by
  unfold create at h
  split at h
  · rename_i q hq
    split at h
    · cases h
    · rename_i hdir
      cases h
      exact ⟨locate_of_locateFile hq, Bool.eq_false_iff.2 hdir, rfl⟩
  · cases h

/-- A new file is empty, and nothing else is changed. -/
theorem of_createNew_ok (h : s.createNew path = .ok (p, t)) :
    s.locate path = .ok p ∧ s.isDirectory p = false ∧ t = s.put p [] := by
  unfold createNew at h
  split at h
  · rename_i q hq
    split at h
    · cases h
    · rename_i hnothing
      cases h
      rw [holds, Bool.or_eq_true, not_or] at hnothing
      exact ⟨locate_of_locateFile hq, Bool.eq_false_iff.2 hnothing.2, rfl⟩
  · cases h

end FileStore
end AgeCrypt
