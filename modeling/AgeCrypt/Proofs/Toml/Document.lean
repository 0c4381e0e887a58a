import AgeCrypt.Proofs.Toml.Number
import AgeCrypt.Proofs.Toml.Text
import AgeCrypt.Toml.Document
import AgeCrypt.Toml.Sections

/-!
# Plain TOML documents are read back

A document is written with headers, entries and empty lines.  Each kind of line is found whatever
lines follow it (`Spells.header`, `Spells.entry`, `Spells.empty`), and so a document is found line
by line (`Spells.append`, `parse_of_spells`).  Its lines make up the tables that were written
(`foldlM_lines`), since no name in it stands twice.
-/

namespace AgeCrypt
namespace Toml

/-! ## Names -/

section

variable {name : String} (h : Bare name)
include h

theorem Bare.exists_cons : ∃ c cs, name.toList = c :: cs ∧ isBare c = true := by
  rcases h with ⟨hne, hall⟩
  cases hname : name.toList with
  | nil => exact absurd hname hne
  | cons c cs =>
      rw [hname, List.all_cons, Bool.and_eq_true] at hall
      exact ⟨c, cs, rfl, hall.1⟩

theorem scanName_of_bare {d : Char} (hd : isBare d = false) (rest : List Char) :
    scanName (name.toList ++ d :: rest) = some (name, d :: rest) := by
  have hall : ∀ c ∈ name.toList, isBare c = true := List.all_eq_true.1 h.2
  have htake : (name.toList ++ d :: rest).takeWhile isBare = name.toList := by
    rw [List.takeWhile_append_of_pos hall, List.takeWhile_cons, hd, if_neg Bool.false_ne_true,
      List.append_nil]
  have hdrop : (name.toList ++ d :: rest).dropWhile isBare = d :: rest := by
    rw [List.dropWhile_append_of_pos hall, List.dropWhile_cons, hd, if_neg Bool.false_ne_true]
  rcases h.exists_cons with ⟨c, cs, hname, hc⟩
  have hquote : ∀ {x : Char} {more : List Char}, isBare x = false →
      name.toList ++ d :: rest ≠ x :: more := by
    rintro x more hx heq
    rw [hname] at heq
    exact ne_of_class hc hx (List.cons.inj heq).1
  rw [scanName.eq_def]
  split
  · rename_i heq
    exact absurd heq (hquote (by decide))
  · rename_i heq
    exact absurd heq (hquote (by decide))
  · rw [htake, hdrop]
    split
    · rename_i hnil
      exact absurd hnil h.1
    · rw [String.ofList_toList]

/-- A key that is a single bare name, up to the character that ends it. -/
theorem scanKey_of_bare {d e : Char} {rest after : List Char} (hd : isBare d = false)
    (hafter : (d :: rest).dropWhile isBlank = e :: after) (he : e ≠ '.') :
    scanKey (name.toList ++ d :: rest) = some (⟨[], name⟩, e :: after) := by
  have hnames : scanNames (depthLimit - 1) (name.toList ++ d :: rest) =
      some ([name], e :: after) := by
    rcases h.exists_cons with ⟨c, cs, hname, hc⟩
    have hblank : isBlank c = false := not_isBlank_of_class hc (by decide) (by decide)
    have hfirst : Scan.blanks (name.toList ++ d :: rest) =
        some ((), name.toList ++ d :: rest) := by
      rw [hname]
      exact Scan.blanks_eq hblank _
    have hlast : Scan.blanks (d :: rest) = some ((), e :: after) := by
      rw [Scan.blanks, hafter]
    have hlimit : depthLimit - 1 = 78 + 1 := rfl
    rw [hlimit, scanNames, Scan.bind_eq hfirst, Scan.bind_eq (scanName_of_bare h hd rest),
      Scan.bind_eq hlast, Scan.bind_eq (Scan.accept_eq_false he after)]
    rfl
  rw [scanKey, Scan.bind_eq hnames]
  rfl

end

/-! ## Values -/

/-- What a text says that is a value without brackets and ends with its line. -/
structure Says (text : String) (v : Value) : Prop where
  begins : ∃ c cs, text.toList = c :: cs ∧ isBlank c = false ∧ c ≠ '[' ∧ c ≠ '\x7b'
  scan : ∀ rest, scanScalar (text.toList ++ '\n' :: rest) = some (v, '\n' :: rest)

/-- What a text says is read from it, with brackets allowed or not. -/
theorem Says.scanValue_eq {text : String} {v : Value} (h : Says text v) (room : Nat)
    (rest : List Char) :
    scanValue room (text.toList ++ '\n' :: rest) = some (v, '\n' :: rest) := by
  cases room with
  | zero => exact h.scan rest
  | succ room =>
      rcases h.begins with ⟨c, cs, htext, -, hbracket, hbrace⟩
      have hstart : Scan.rest (text.toList ++ '\n' :: rest) =
          some (text.toList ++ '\n' :: rest, text.toList ++ '\n' :: rest) := rfl
      have haccept : ∀ d, c ≠ d → Scan.accept d (text.toList ++ '\n' :: rest) =
          some (false, text.toList ++ '\n' :: rest) := by
        intro d hd
        rw [htext]
        exact Scan.accept_eq_false hd _
      rw [scanValue, Scan.bind_eq hstart, Scan.bind_eq (haccept _ hbracket),
        if_neg Bool.false_ne_true, Scan.bind_eq (haccept _ hbrace), if_neg Bool.false_ne_true]
      exact h.scan rest

theorem says_boolean (b : Bool) : Says (if b then "true" else "false") (.boolean b) := by
  cases b with
  | true => exact ⟨⟨_, _, rfl, by decide⟩, fun _ => rfl⟩
  | false => exact ⟨⟨_, _, rfl, by decide⟩, fun _ => rfl⟩

/-- A number of 63 bits is read as it is written. -/
theorem says_number {n : Nat} (hfits : n < Nat.pow 2 63) :
    Says (String.ofList (Nat.toDigits 10 n)) (.integer n) := by
  have hdigit : ∃ c cs, (String.ofList (Nat.toDigits 10 n)).toList = c :: cs ∧
      c.isDigit = true := by
    rw [String.toList_ofList]
    cases hdigits : Nat.toDigits 10 n with
    | nil => exact absurd hdigits Nat.toDigits_ne_nil
    | cons c cs =>
        exact ⟨c, cs, rfl, WorkFactor.isDigit_of_mem_toDigits (hdigits ▸ List.mem_cons_self ..)⟩
  rcases hdigit with ⟨c, cs, htext, hc⟩
  have hblank : isBlank c = false := not_isBlank_of_class hc (by decide) (by decide)
  refine ⟨⟨c, cs, htext, hblank, ne_of_class hc (by decide), ne_of_class hc (by decide)⟩,
    fun rest => ?_⟩
  rw [← numberOrDate_toDigits hfits, htext, List.cons_append, scanScalar]
  all_goals
    intro more heq
    exact ne_of_class hc (by decide) (List.cons.inj heq).1

/-- A text is read as it is written, in whatever quotes. -/
theorem says_text (s : String) : Says (writeText s) (.text s) := by
  have hquote : ∃ cs, (writeText s).toList = (Quoting.choose s.toList).mark :: cs := by
    rw [writeText, String.toList_ofList, Quoting.write, Quoting.delimiter]
    split <;> exact ⟨_, rfl⟩
  rcases hquote with ⟨cs, htext⟩
  have hmark : ∀ q : Quoting, q.mark = '"' ∨ q.mark = '\'' := by
    intro q
    unfold Quoting.mark
    split
    · exact .inl rfl
    · exact .inr rfl
  refine ⟨⟨_, cs, htext, ?_⟩, fun rest => ?_⟩
  · rcases hmark (Quoting.choose s.toList) with h | h <;> (rw [h]; decide)
  · have hfeed : ∀ c, '\n' ≠ c → ('\n' :: rest).head? ≠ some c :=
      fun c hc h => hc (Option.some.inj h)
    have hread := scanText_writeText s (hfeed '"' (by decide)) (hfeed '\'' (by decide))
    have hscalar : scanScalar ((writeText s).toList ++ '\n' :: rest) =
        (scanText ((writeText s).toList ++ '\n' :: rest)).map fun r => (.text r.1, r.2) := by
      rw [htext]
      rcases hmark (Quoting.choose s.toList) with h | h <;> (rw [h]; rfl)
    rw [hscalar, hread, Option.map_some]

/-! ## Lines -/

/-- Lines that a text is read as, whatever follows.  Each of them takes a character at least. -/
def Spells (text : String) (lines : List Line) : Prop :=
  ∃ k ≤ text.length, ∀ fuel rest,
    scanLines (fuel + k) (text.toList ++ rest) = (scanLines fuel rest).map (lines ++ ·)

namespace Spells

/-- Texts one after another are read as their lines one after another. -/
theorem append {s t : String} {ls ms : List Line} (hs : Spells s ls) (ht : Spells t ms) :
    Spells (s ++ t) (ls ++ ms) := by
  rcases hs with ⟨j, hj, hs⟩
  rcases ht with ⟨k, hk, ht⟩
  refine ⟨k + j, ?_, fun fuel rest => ?_⟩
  · rw [String.length_append]
    omega
  · rw [String.toList_append, List.append_assoc, ← Nat.add_assoc, hs, ht, Option.map_map]
    congr 1
    funext more
    exact (List.append_assoc ls ms more).symm

theorem nil : Spells "" [] := by
  refine ⟨0, Nat.le_refl _, fun fuel rest => ?_⟩
  cases h : scanLines fuel rest <;> simp [h]

theorem empty : Spells "\n" [] := by
  refine ⟨1, Nat.le_refl _, fun fuel rest => ?_⟩
  have hline : scanLines (fuel + 1) ("\n".toList ++ rest) = scanLines fuel rest := rfl
  rw [hline]
  cases h : scanLines fuel rest <;> simp

/-- A line that begins with neither a blank, a comment nor a line end. -/
theorem of_line {text : String} {line : Line} (c : Char) (cs : List Char)
    (htext : text.toList = c :: cs) (hblank : isBlank c = false)
    (hc : ¬ (c = '#' ∨ c = '\n' ∨ c = '\r'))
    (hscan : ∀ rest, (if c = '[' then scanHeader else scanEntry) (text.toList ++ rest) =
      some (line, rest)) : Spells text [line] := by
  refine ⟨1, ?_, fun fuel rest => ?_⟩
  · rw [← String.length_toList, htext]
    exact Nat.succ_le_succ (Nat.zero_le _)
  · have hstart : (text.toList ++ rest).dropWhile isBlank = c :: (cs ++ rest) := by
      rw [htext, List.cons_append, List.dropWhile_cons, hblank, if_neg Bool.false_ne_true]
    have hread := hscan rest
    rw [htext, List.cons_append] at hread
    rw [scanLines, hstart]
    simp only [if_neg hc, hread, bind, Option.bind_some, pure]
    cases scanLines fuel rest <;> rfl

theorem header (name : String) (h : Bare name) :
    Spells ("[" ++ name ++ "]\n") [.table ⟨[], name⟩] := by
  refine of_line '[' (name.toList ++ [']', '\n']) ?_ (by decide) (by decide)
    fun rest => ?_
  · rw [String.toList_append, String.toList_append]
    rfl
  · rcases h.exists_cons with ⟨c, cs, hname, hc⟩
    have hbracket : c ≠ '[' := ne_of_class hc (by decide)
    have htext : ("[" ++ name ++ "]\n").toList ++ rest =
        '[' :: (name.toList ++ ']' :: '\n' :: rest) := by
      simp only [String.toList_append, List.append_assoc]
      rfl
    have haccept : Scan.accept '[' (name.toList ++ ']' :: '\n' :: rest) =
        some (false, name.toList ++ ']' :: '\n' :: rest) := by
      rw [hname]
      exact Scan.accept_eq_false hbracket _
    have hkey : scanKey (name.toList ++ ']' :: '\n' :: rest) =
        some (⟨[], name⟩, ']' :: '\n' :: rest) :=
      scanKey_of_bare h (by decide) rfl (by decide)
    rw [if_pos rfl, htext, scanHeader, Scan.bind_eq (Scan.char_eq '[' _), Scan.bind_eq haccept,
      if_neg Bool.false_ne_true, Scan.bind_eq hkey, Scan.bind_eq (Scan.char_eq ']' _),
      Scan.bind_eq (Scan.lineEnd_eq rest)]
    rfl

theorem entry (name : String) {text : String} {v : Value} (h : Bare name) (hv : Says text v) :
    Spells (name ++ " = " ++ text ++ "\n") [.entry ⟨[], name⟩ v] := by
  rcases h.exists_cons with ⟨c, cs, hname, hc⟩
  have hblank : isBlank c = false := not_isBlank_of_class hc (by decide) (by decide)
  have hbracket : c ≠ '[' := ne_of_class hc (by decide)
  refine of_line c (cs ++ (" = " ++ text ++ "\n").toList) ?_ hblank ?_ fun rest => ?_
  · simp only [String.toList_append, hname, List.cons_append, List.append_assoc]
  · rintro (rfl | rfl | rfl) <;> exact absurd hc (by decide)
  · have htext : (name ++ " = " ++ text ++ "\n").toList ++ rest =
        name.toList ++ ' ' :: '=' :: ' ' :: (text.toList ++ '\n' :: rest) := by
      simp only [String.toList_append, List.append_assoc]
      rfl
    have hkey : scanKey (name.toList ++ ' ' :: '=' :: ' ' :: (text.toList ++ '\n' :: rest)) =
        some (⟨[], name⟩, '=' :: ' ' :: (text.toList ++ '\n' :: rest)) :=
      scanKey_of_bare h (by decide) rfl (by decide)
    have hblanks : Scan.blanks (' ' :: (text.toList ++ '\n' :: rest)) =
        some ((), text.toList ++ '\n' :: rest) := by
      rcases hv.begins with ⟨d, ds, hd, hblank, -⟩
      rw [hd]
      exact Scan.blanks_eq hblank _
    rw [if_neg hbracket, htext, scanEntry, Scan.bind_eq hkey,
      Scan.bind_eq (Scan.char_eq '=' _), Scan.bind_eq hblanks,
      Scan.bind_eq (hv.scanValue_eq _ rest), Scan.bind_eq (Scan.lineEnd_eq rest)]
    rfl

end Spells

/-! ## Documents -/

/-- A document is put together from the lines that it is read as. -/
theorem parse_of_spells {text : String} {lines : List Line} (h : Spells text lines)
    (hmark : text.toList.head? ≠ some '\uFEFF') :
    parse text = (lines.foldlM Draft.add {}).map Draft.root := by
  rcases h with ⟨k, hk, h⟩
  have hlines : scanLines (text.toList.length + 1) text.toList = some lines := by
    have hfuel : text.toList.length + 1 = (text.toList.length - k) + 1 + k := by
      rw [String.length_toList]
      omega
    have hend := h (text.toList.length - k + 1) []
    rw [List.append_nil] at hend
    rw [hfuel, hend, scanLines]
    simp
  have hnomark : ∀ cs, text.toList ≠ '\uFEFF' :: cs := by
    rintro cs heq
    exact hmark (heq ▸ rfl)
  unfold parse
  split
  · rename_i heq
    exact absurd heq (hnomark _)
  · simp only [hlines, bind, Option.bind_some, pure]
    cases lines.foldlM Draft.add {} <;> rfl

/-! ## Sections as they are written -/

theorem says_scalar {v : Scalar} (h : v.Fits) : Says v.write v.value := by
  cases v with
  | text s => exact says_text s
  | number n => exact says_number h
  | boolean b => exact says_boolean b

def Settings.lines (settings : Settings) : List Line :=
  settings.map fun e => .entry ⟨[], e.1⟩ e.2.value

def Sections.lines (d : Sections) : List Line :=
  d.flatMap fun e => .table ⟨[], e.1⟩ :: Settings.lines e.2

theorem spells_settings {settings : Settings} (h : settings.Plain) :
    Spells settings.write settings.lines := by
  rcases h with ⟨hbare, hfits, -⟩
  induction settings with
  | nil => exact .nil
  | cons e settings ih =>
      rcases List.forall_mem_cons.1 hbare with ⟨hname, hbare⟩
      rcases List.forall_mem_cons.1 hfits with ⟨hv, hfits⟩
      exact (Spells.entry e.1 hname (says_scalar hv)).append (ih hbare hfits)

theorem spells_section {name : String} {settings : Settings} (hname : Bare name)
    (h : settings.Plain) :
    Spells (writeSection name settings) (.table ⟨[], name⟩ :: settings.lines) :=
  (Spells.header name hname).append (spells_settings h)

theorem spells_more {d : Sections} (hbare : ∀ e ∈ d, Bare e.1)
    (hsettings : ∀ e ∈ d, Settings.Plain e.2) : Spells d.writeMore d.lines := by
  induction d with
  | nil => exact .nil
  | cons e d ih =>
      rcases List.forall_mem_cons.1 hbare with ⟨hname, hbare⟩
      rcases List.forall_mem_cons.1 hsettings with ⟨hfirst, hsettings⟩
      exact (Spells.empty.append (spells_section hname hfirst)).append (ih hbare hsettings)

/-- A document that is written is read line by line as its sections. -/
theorem spells_sections {d : Sections} (h : d.Plain) : Spells d.write d.lines := by
  rcases h with ⟨hbare, hsettings, -⟩
  cases d with
  | nil => exact .nil
  | cons e d =>
      rcases List.forall_mem_cons.1 hbare with ⟨hname, hbare⟩
      rcases List.forall_mem_cons.1 hsettings with ⟨hfirst, hsettings⟩
      exact (spells_section hname hfirst).append (spells_more hbare hsettings)

/-! ## Putting the tables together -/

section

variable {es : Entries} {name : String} (hname : name ∉ es.map (·.1))
include hname

theorem Entries.lookup_eq_none : es.lookup name = none := by
  refine List.lookup_eq_none_iff.2 fun e he => ?_
  rw [bne_iff_ne]
  rintro rfl
  exact hname (List.mem_map_of_mem he)

theorem Entries.lookup_append_self (v : Value) : (es ++ [(name, v)]).lookup name = some v := by
  rw [List.lookup_append, lookup_eq_none hname, Option.none_or, List.lookup_cons_self]

theorem Entries.replace_append_self (v w : Value) :
    (es ++ [(name, v)]).replace name w = es ++ [(name, w)] := by
  have hothers : ∀ e ∈ es, (if e.1 = name then (name, w) else e) = e := by
    intro e he
    rw [if_neg]
    rintro rfl
    exact hname (List.mem_map_of_mem he)
  rw [replace, List.map_append, List.map_congr_left hothers, List.map_id', List.map_singleton,
    if_pos rfl]

/-- A header opens a new table. -/
theorem Draft.add_table (place : List String) :
    Draft.add ⟨es, place⟩ (.table ⟨[], name⟩) =
      some ⟨es ++ [(name, .table .header [])], [name]⟩ := by
  simp only [Draft.add, Entries.openTable, Entries.modify, Entries.lookup_eq_none hname, bind,
    Option.bind_some]
  rfl

/-- An entry goes into the table that was opened last. -/
theorem Draft.add_entry {done : Entries} {key : String} (hkey : key ∉ done.map (·.1)) (v : Value) :
    Draft.add ⟨es ++ [(name, .table .header done)], [name]⟩ (.entry ⟨[], key⟩ v) =
      some ⟨es ++ [(name, .table .header (done ++ [(key, v)]))], [name]⟩ := by
  have hinsert : done.insert ⟨[], key⟩ v .header = some (done ++ [(key, v)]) := by
    simp [Entries.insert, Entries.modify, Entries.lookup_eq_none hkey]
  simp only [Draft.add, Entries.modify, Entries.lookup_append_self hname, Entries.mayEnter,
    Bool.not_false, if_true, hinsert, bind, Option.bind_some, Entries.replace_append_self hname]
  rfl

/-- Settings with different names are added to the section that is open. -/
theorem foldlM_settings {settings : Settings} {done : Entries}
    (hdistinct : (done.map (·.1) ++ settings.map (·.1)).Nodup) :
    settings.lines.foldlM Draft.add ⟨es ++ [(name, .table .header done)], [name]⟩ =
      some ⟨es ++ [(name, .table .header (done ++ settings.entries))], [name]⟩ := by
  induction settings generalizing done with
  | nil => simp [Settings.lines, Settings.entries]
  | cons e settings ih =>
      have hkey : e.1 ∉ done.map (·.1) := by
        intro hmem
        exact (List.nodup_append.1 hdistinct).2.2 _ hmem _ (List.mem_cons_self ..) rfl
      have hmore : ((done ++ [(e.1, e.2.value)]).map (·.1) ++ settings.map (·.1)).Nodup := by
        simpa using hdistinct
      have hlines : Settings.lines (e :: settings) =
          .entry ⟨[], e.1⟩ e.2.value :: Settings.lines settings := rfl
      have hentries : Settings.entries (e :: settings) =
          [(e.1, e.2.value)] ++ Settings.entries settings := rfl
      rw [hlines, List.foldlM_cons, Draft.add_entry hname hkey, hentries, ← List.append_assoc]
      exact ih hmore

end

/-- Sections whose names are all different, and so are the names in each, are put together as they
stand. -/
theorem foldlM_lines {d : Sections} {es : Entries}
    (hdistinct : (es.map (·.1) ++ d.map (·.1)).Nodup)
    (hsettings : ∀ e ∈ d, Settings.Plain e.2) (place : List String) :
    (d.lines.foldlM Draft.add ⟨es, place⟩).map Draft.root = some (es ++ d.entries) := by
  induction d generalizing es place with
  | nil => simp [Sections.lines, Sections.entries]
  | cons e d ih =>
      rcases List.forall_mem_cons.1 hsettings with ⟨hfirst, hsettings⟩
      have hname : e.1 ∉ es.map (·.1) := by
        intro hmem
        exact (List.nodup_append.1 hdistinct).2.2 _ hmem _ (List.mem_cons_self ..) rfl
      have hmore : ((es ++ [(e.1, Value.table .header (Settings.entries e.2))]).map (·.1) ++
          d.map (·.1)).Nodup := by
        simpa using hdistinct
      have hlines : Sections.lines (e :: d) =
          .table ⟨[], e.1⟩ :: (Settings.lines e.2 ++ Sections.lines d) := rfl
      have hentries : Sections.entries (e :: d) =
          [(e.1, .table .header (Settings.entries e.2))] ++ Sections.entries d := rfl
      have hempty : (([] : Entries).map (·.1) ++ e.2.map (·.1)).Nodup := by
        simpa using hfirst.distinct
      have hopened := foldlM_settings hname hempty
      rw [hlines, List.foldlM_cons, Draft.add_table hname, hentries, ← List.append_assoc]
      simp only [bind, Option.bind_some, List.foldlM_append, hopened, List.nil_append]
      exact ih hmore hsettings [e.1]

/-- What is written does not begin with a byte order mark. -/
theorem head?_write_ne (d : Sections) : d.write.toList.head? ≠ some '\uFEFF' := by
  cases d with
  | nil => decide
  | cons e d =>
      have hhead : (Sections.write (e :: d)).toList.head? = some '[' := by
        simp only [Sections.write, writeSection, String.toList_append, List.append_assoc]
        rfl
      rw [hhead]
      decide

/-- A plain document is read as what was written. -/
theorem parse_write {d : Sections} (h : d.Plain) : parse d.write = some d.entries := by
  rw [parse_of_spells (spells_sections h) (head?_write_ne d)]
  have hdistinct : (([] : Entries).map (·.1) ++ d.map (·.1)).Nodup := by
    simpa using h.distinct
  exact foldlM_lines hdistinct h.settings []

end Toml
end AgeCrypt
