import AgeCrypt.Proofs.Keys.IdentityFile

/-!
# Identity files line by line

The lines of a file are the pieces between its line feeds, a carriage return at the end of a piece
left out (`IdentityFile.lines`).  A line is idle, or spells a key, or is bad; what was left out
makes no difference to that (`IdentityFile.parseLine_append_blank`).

So reading a file is a walk over its lines that counts them (`IdentityFile.walk`,
`IdentityFile.readFrom_eq_walk`): it collects the keys (`Collected`) up to the first bad line, whose
number it reports (`IdentityFile.walk_eq_error_iff`).  Idle lines in between only count
(`IdentityFile.walk_insert`).
-/

namespace AgeCrypt

open Buffered

/-! ## White space at the end -/

namespace Text

theorem trimChars_append {c : Char} (hc : isBlank c = true) (cs : List Char) :
    trimChars (cs ++ [c]) = trimChars cs := by
  unfold trimChars
  rw [List.dropWhile_append]
  split
  · rename_i hall
    rw [List.isEmpty_iff.1 hall, List.dropWhile_cons_of_pos hc]
    rfl
  · rw [List.reverse_append, List.reverse_singleton, List.singleton_append,
      List.dropWhile_cons_of_pos hc]

/-- White space at the end of a text is trimmed with the rest. -/
theorem trim_append {x : UInt8} (hx : isBlank (char x) = true) (text : String) :
    trim (text ++ ofAscii [x]) = trim text := by
  rw [trim, trim, String.toList_append, toList_ofAscii, List.map_singleton, trimChars_append hx]

end Text

/-! ## Kinds of lines -/

/-- The text of a secret key is neither empty nor a comment. -/
theorem SecretKey.of_parse_ok {s : String} {k : SecretKey} (h : SecretKey.parse s = .ok k) :
    ¬ (s = "" ∨ s.startsWith "#" = true) := by
  rcases decodeKey_eq_ok_iff.1 (SecretKey.parse_eq_ok_iff.1 h) with
    ⟨text, human, rfl, hbytes, hkind⟩
  rcases (Bech32.decodeBytes_eq_ok_iff.1 hbytes).2.1 with ⟨rest, rfl⟩
  have hletter : (Text.utf8 SecretKey.kind).map Ascii.toLower =
      97 :: ((Text.utf8 SecretKey.kind).map Ascii.toLower).tail := by
    decide
  rw [hletter] at hkind
  rcases List.map_eq_cons_iff.1 hkind with ⟨x, human, rfl, hx, -⟩
  rintro (hempty | hhash)
  · exact Text.ofAscii_ne_empty (List.cons_ne_nil _ _) hempty
  · rcases IdentityFile.startsWith_hash_iff.1 hhash with ⟨more, hmore⟩
    rw [← (List.cons.inj hmore).1] at hx
    exact absurd hx (by decide)

namespace IdentityFile

/-- Nothing but white space, or a comment. -/
def IsIdle (line : Bytes) : Prop :=
  ∃ text, Text.ofUtf8? line = some text ∧
    (Text.trim text = "" ∨ (Text.trim text).startsWith "#" = true)

/-- A key string with white space around it. -/
def SpellsKey (line : Bytes) (key : SecretKey) : Prop :=
  ∃ text, Text.ofUtf8? line = some text ∧ SecretKey.parse (Text.trim text) = .ok key

/-- Not a text, or a text that is neither. -/
def IsBad (line : Bytes) : Prop :=
  ¬ IsIdle line ∧ ∀ key, ¬ SpellsKey line key

/-- What the kinds of lines are read as. -/
theorem parseLine_cases (number : Nat) (line : Bytes) :
    (IsIdle line ∧ parseLine number line = .ok []) ∨
      (∃ key, SpellsKey line key ∧ parseLine number line = .ok [key]) ∨
        (IsBad line ∧ parseLine number line = .error (.malformedLine number)) := by
  unfold parseLine
  cases htext : Text.ofUtf8? line with
  | none =>
      refine .inr (.inr ⟨⟨?_, ?_⟩, rfl⟩)
      · rintro ⟨text, hvalid, -⟩
        cases htext.symm.trans hvalid
      · rintro key ⟨text, hvalid, -⟩
        cases htext.symm.trans hvalid
  | some text =>
      dsimp only
      by_cases hidle : Text.trim text = "" ∨ (Text.trim text).startsWith "#" = true
      · rw [if_pos hidle]
        exact .inl ⟨⟨text, htext, hidle⟩, rfl⟩
      · rw [if_neg hidle]
        cases hkey : SecretKey.parse (Text.trim text) with
        | ok key => exact .inr (.inl ⟨key, ⟨text, htext, hkey⟩, rfl⟩)
        | error e =>
            refine .inr (.inr ⟨⟨?_, ?_⟩, rfl⟩)
            · rintro ⟨other, hvalid, h⟩
              cases htext.symm.trans hvalid
              exact hidle h
            · rintro key ⟨other, hvalid, h⟩
              cases htext.symm.trans hvalid
              cases hkey.symm.trans h

/-- No line is of two kinds. -/
theorem SpellsKey.not_isIdle {line : Bytes} {key : SecretKey} (h : SpellsKey line key) :
    ¬ IsIdle line := by
  rcases h with ⟨text, htext, hkey⟩
  rintro ⟨other, hother, hidle⟩
  cases htext.symm.trans hother
  exact SecretKey.of_parse_ok hkey hidle

/-- Idle lines are those that hold nothing. -/
theorem isIdle_iff {line : Bytes} : IsIdle line ↔ parseLine 1 line = .ok [] := by
  rcases parseLine_cases 1 line with ⟨hidle, hread⟩ | ⟨key, hkey, hread⟩ | ⟨hbad, hread⟩ <;>
    rw [hread]
  · exact iff_of_true hidle rfl
  · exact iff_of_false hkey.not_isIdle nofun
  · exact iff_of_false hbad.1 nofun

instance (line : Bytes) : Decidable (IsIdle line) :=
  decidable_of_iff _ isIdle_iff.symm

/-- Bad lines are those that are refused. -/
theorem isBad_iff {line : Bytes} : IsBad line ↔ parseLine 1 line = .error (.malformedLine 1) := by
  rcases parseLine_cases 1 line with ⟨hidle, hread⟩ | ⟨key, hkey, hread⟩ | ⟨hbad, hread⟩ <;>
    rw [hread]
  · exact iff_of_false (fun hbad => hbad.1 hidle) nofun
  · exact iff_of_false (fun hbad => hbad.2 key hkey) nofun
  · exact iff_of_true hbad rfl

instance (line : Bytes) : Decidable (IsBad line) :=
  decidable_of_iff _ isBad_iff.symm

theorem parseLine_of_isIdle {line : Bytes} (h : IsIdle line) (number : Nat) :
    parseLine number line = .ok [] := by
  rcases parseLine_cases number line with ⟨-, hread⟩ | ⟨key, hkey, -⟩ | ⟨hbad, -⟩
  · exact hread
  · exact absurd h hkey.not_isIdle
  · exact absurd h hbad.1

theorem parseLine_of_spellsKey {line : Bytes} {key : SecretKey} (h : SpellsKey line key)
    (number : Nat) : parseLine number line = .ok [key] := by
  rcases parseLine_cases number line with
    ⟨hidle, -⟩ | ⟨other, ⟨text, htext, hkey⟩, hread⟩ | ⟨hbad, -⟩
  · exact absurd hidle h.not_isIdle
  · rcases h with ⟨text', htext', hkey'⟩
    cases htext.symm.trans htext'
    cases hkey.symm.trans hkey'
    exact hread
  · exact absurd h (hbad.2 key)

theorem parseLine_of_isBad {line : Bytes} (h : IsBad line) (number : Nat) :
    parseLine number line = .error (.malformedLine number) := by
  rcases parseLine_cases number line with ⟨hidle, -⟩ | ⟨key, hkey, -⟩ | ⟨-, hread⟩
  · exact absurd hidle h.1
  · exact absurd hkey (h.2 key)
  · exact hread

/-! ## Lines -/

def dropReturn (line : Bytes) : Bytes :=
  if line.getLast? = some Ascii.carriageReturn then line.dropLast else line

def lines (data : Bytes) : List Bytes :=
  (data.splitOn Ascii.newline).map dropReturn

/-- A line feed ends a line, with the carriage return before it. -/
theorem lines_of_split {line more : Bytes} (h : Ascii.newline ∉ line) :
    lines (line ++ Ascii.newline :: more) = dropReturn line :: lines more := by
  rw [lines, List.splitOn_append_cons_self_of_not_mem h, List.map_cons, lines]

theorem lines_of_notMem {data : Bytes} (h : Ascii.newline ∉ data) :
    lines data = [dropReturn data] := by
  rw [lines, List.splitOn_eq_singleton h, List.map_singleton]

/-- A line feed or a carriage return at the end of a line changes nothing. -/
theorem parseLine_append_blank {x : UInt8} (hx : x < 128)
    (hblank : Text.isBlank (Text.char x) = true) (number : Nat) (line : Bytes) :
    parseLine number (line ++ [x]) = parseLine number line := by
  rw [parseLine, parseLine, Text.ofUtf8?_append line hx]
  cases Text.ofUtf8? line with
  | none => rfl
  | some text => simp only [Option.map_some, Text.trim_append hblank]

/-- The carriage return before a line feed is white space like any other. -/
theorem parseLine_dropReturn (number : Nat) (line : Bytes) :
    parseLine number (dropReturn line) = parseLine number line := by
  unfold dropReturn
  split
  · rename_i hlast
    rcases List.getLast?_eq_some_iff.1 hlast with ⟨front, rfl⟩
    rw [List.dropLast_concat, parseLine_append_blank (by decide) (by decide)]
  · rfl

/-! ## Reading -/

/-- The keys on the lines of a file, of which the first has the number `number + 1`. -/
def walk (number : Nat) : List Bytes → Except IdentityFileError (List SecretKey)
  | [] => .ok []
  | line :: lines =>
      match parseLine (number + 1) line with
      | .error e => .error e
      | .ok keys => (walk (number + 1) lines).map (keys ++ ·)

theorem walk_cons_of_ok {number : Nat} {line : Bytes} {keys : List SecretKey}
    (h : parseLine (number + 1) line = .ok keys) (lines : List Bytes) :
    walk number (line :: lines) = (walk (number + 1) lines).map (keys ++ ·) := by
  rw [walk, h]

theorem walk_cons_of_isBad {number : Nat} {line : Bytes} (h : IsBad line) (lines : List Bytes) :
    walk number (line :: lines) = .error (.malformedLine (number + 1)) := by
  rw [walk, parseLine_of_isBad h]

variable {σ : Type} [ByteSource σ] {b : Buffered σ} {data : Bytes}

/-- The line that was read is walked over first, and then the others. -/
theorem readFrom_of_readLine {c : Buffered σ} {number : Nat} {got line : Bytes}
    {others : List Bytes} (hread : b.readLine = (.ok got, c)) (hne : got ≠ [])
    (hline : parseLine (number + 1) got = parseLine (number + 1) line)
    (hrest : readFrom c (number + 1) = walk (number + 1) others) :
    readFrom b number = walk number (line :: others) := by
  rw [readFrom_eq, hread]
  rcases List.exists_cons_of_ne_nil hne with ⟨x, tail, rfl⟩
  dsimp only
  rw [walk, hline]
  cases parseLine (number + 1) line with
  | error e => rfl
  | ok keys =>
      dsimp only
      rw [hrest]
      cases walk (number + 1) others <;> rfl

/-- Reading a file is walking over its lines, however it arrives. -/
theorem readFrom_eq_walk (h : b.Holds data) (number : Nat) :
    readFrom b number = walk number (lines data) := by
  -- the file gets shorter by a line
  induction hsize : data.length using Nat.strongRecOn generalizing b data number with
  | _ size ih =>
      by_cases hfeed : Ascii.newline ∈ data
      · rcases List.eq_append_cons_of_mem hfeed with ⟨line, more, rfl, hline⟩
        rcases h.readLine_of_split hline with ⟨c, hread, hmore⟩
        have hless : more.length < size := by
          rw [← hsize, List.length_append, List.length_cons]
          omega
        rw [lines_of_split hline]
        refine readFrom_of_readLine hread ?_ ?_ (ih _ hless hmore _ rfl)
        · exact List.append_ne_nil_of_right_ne_nil _ (List.cons_ne_nil _ _)
        · rw [parseLine_append_blank (by decide) (by decide), parseLine_dropReturn]
      · rcases h.readLine_of_notMem hfeed with ⟨c, hread, hend⟩
        rw [lines_of_notMem hfeed]
        cases data with
        | nil =>
            rw [readFrom_of_end h]
            rfl
        | cons x data =>
            exact readFrom_of_readLine hread (List.cons_ne_nil x data)
              (parseLine_dropReturn _ _).symm (readFrom_of_end hend _)

/-! ## What a walk finds -/

/-- The keys on lines of which none is bad, in order. -/
inductive Collected : List Bytes → List SecretKey → Prop where
  | nil : Collected [] []
  | idle {line : Bytes} {lines : List Bytes} {keys : List SecretKey} (hline : IsIdle line)
      (h : Collected lines keys) : Collected (line :: lines) keys
  | key {line : Bytes} {lines : List Bytes} {key : SecretKey} {keys : List SecretKey}
      (hline : SpellsKey line key) (h : Collected lines keys) :
      Collected (line :: lines) (key :: keys)

/-- Lines without a bad one are walked over first, and count for the others. -/
theorem walk_append {before : List Bytes} {keys : List SecretKey} (h : Collected before keys)
    (number : Nat) (after : List Bytes) :
    walk number (before ++ after) = (walk (number + before.length) after).map (keys ++ ·) := by
  induction h generalizing number with
  | nil =>
      rw [List.nil_append, List.length_nil, Nat.add_zero]
      cases walk number after <;> rfl
  | @idle line lines keys hidle _ ih =>
      rw [List.cons_append, walk_cons_of_ok (parseLine_of_isIdle hidle _), ih, List.length_cons,
        Nat.add_assoc, Nat.add_comm 1]
      cases walk (number + (lines.length + 1)) after <;> rfl
  | @key line lines key keys hkey _ ih =>
      rw [List.cons_append, walk_cons_of_ok (parseLine_of_spellsKey hkey _), ih, List.length_cons,
        Nat.add_assoc, Nat.add_comm 1]
      cases walk (number + (lines.length + 1)) after <;> rfl

/-- Where no line is bad the keys are collected, whatever the numbers are. -/
theorem walk_of_collected {lines : List Bytes} {keys : List SecretKey} (h : Collected lines keys)
    (number : Nat) : walk number lines = .ok keys := by
  have hall := walk_append h number []
  rw [List.append_nil] at hall
  rw [hall]
  exact congrArg Except.ok (List.append_nil keys)

/-- The first bad line ends a walk. -/
theorem walk_of_isBad {before : List Bytes} {keys : List SecretKey} (h : Collected before keys)
    {line : Bytes} (hline : IsBad line) (after : List Bytes) (number : Nat) :
    walk number (before ++ line :: after) =
      .error (.malformedLine (number + before.length + 1)) := by
  rw [walk_append h, walk_cons_of_isBad hline]
  rfl

/-- Either no line is bad, or one of them is the first bad one. -/
theorem collected_or_bad (lines : List Bytes) :
    (∃ keys, Collected lines keys) ∨ ∃ before line after keys,
      lines = before ++ line :: after ∧ Collected before keys ∧ IsBad line := by
  induction lines with
  | nil => exact .inl ⟨[], .nil⟩
  | cons line lines ih =>
      rcases parseLine_cases 1 line with ⟨hidle, -⟩ | ⟨key, hkey, -⟩ | ⟨hbad, -⟩
      · rcases ih with ⟨keys, h⟩ | ⟨before, bad, after, keys, rfl, h, hbad⟩
        · exact .inl ⟨keys, .idle hidle h⟩
        · exact .inr ⟨line :: before, bad, after, keys, rfl, .idle hidle h, hbad⟩
      · rcases ih with ⟨keys, h⟩ | ⟨before, bad, after, keys, rfl, h, hbad⟩
        · exact .inl ⟨key :: keys, .key hkey h⟩
        · exact .inr ⟨line :: before, bad, after, key :: keys, rfl, .key hkey h, hbad⟩
      · exact .inr ⟨[], line, lines, [], rfl, .nil, hbad⟩

/-- A walk succeeds just if no line is bad. -/
theorem walk_eq_ok_iff (number : Nat) {lines : List Bytes} {keys : List SecretKey} :
    walk number lines = .ok keys ↔ Collected lines keys := by
  refine ⟨fun h => ?_, fun h => walk_of_collected h number⟩
  rcases collected_or_bad lines with
    ⟨found, hfound⟩ | ⟨before, line, after, found, rfl, hfound, hbad⟩
  · rw [walk_of_collected hfound, Except.ok.injEq] at h
    exact h ▸ hfound
  · rw [walk_of_isBad hfound hbad] at h
    cases h

/-- A walk fails at the first bad line, and tells its number. -/
theorem walk_eq_error_iff (number : Nat) (lines : List Bytes) (e : IdentityFileError) :
    walk number lines = .error e ↔ ∃ before line after keys,
      lines = before ++ line :: after ∧ Collected before keys ∧ IsBad line ∧
        e = .malformedLine (number + before.length + 1) := by
  constructor
  · intro h
    rcases collected_or_bad lines with ⟨keys, hkeys⟩ | ⟨before, line, after, keys, rfl, hkeys, hbad⟩
    · rw [walk_of_collected hkeys] at h
      cases h
    · rw [walk_of_isBad hkeys hbad] at h
      cases h
      exact ⟨before, line, after, keys, rfl, hkeys, hbad, rfl⟩
  · rintro ⟨before, line, after, keys, rfl, hkeys, hbad, rfl⟩
    exact walk_of_isBad hkeys hbad after number

/-! ## Idle lines -/

/-- The error with `count` more lines behind the first `place`. -/
def shift (place count : Nat) : IdentityFileError → IdentityFileError
  | .malformedLine number => .malformedLine (if place < number then number + count else number)
  | e => e

/-- Lines that are walked over later are reported as such. -/
theorem walk_add (number count : Nat) (lines : List Bytes) :
    walk (number + count) lines = (walk number lines).mapError (shift number count) := by
  rcases collected_or_bad lines with ⟨keys, hkeys⟩ | ⟨before, line, after, keys, rfl, hkeys, hbad⟩
  · rw [walk_of_collected hkeys, walk_of_collected hkeys]
    rfl
  · have hplace : number < number + before.length + 1 := by omega
    have hnumber : number + before.length + 1 + count = number + count + before.length + 1 := by
      omega
    have hshift : shift number count (.malformedLine (number + before.length + 1)) =
        .malformedLine (number + count + before.length + 1) := by
      rw [shift, if_pos hplace, hnumber]
    rw [walk_of_isBad hkeys hbad, walk_of_isBad hkeys hbad, ← hshift]
    rfl

/-- Idle lines change no key, and push the bad lines behind them back. -/
theorem walk_insert {before idle after : List Bytes} (h : ∀ line ∈ idle, IsIdle line) :
    walk 0 (before ++ (idle ++ after)) =
      (walk 0 (before ++ after)).mapError (shift before.length idle.length) := by
  rcases collected_or_bad before with ⟨keys, hkeys⟩ | ⟨front, line, rest, keys, rfl, hkeys, hbad⟩
  · have hidle : Collected idle [] := by
      induction idle with
      | nil => exact .nil
      | cons line idle ih =>
          exact .idle (h line (List.mem_cons_self ..))
            (ih fun l hl => h l (List.mem_cons_of_mem _ hl))
    rw [walk_append hkeys, walk_append hkeys, walk_append hidle, walk_add, Nat.zero_add]
    cases walk before.length after <;> rfl
  · -- the bad line is one of those before the place
    have hplace : ¬ (front ++ line :: rest).length < 0 + front.length + 1 := by
      rw [List.length_append, List.length_cons]
      omega
    have hshift : shift (front ++ line :: rest).length idle.length
        (.malformedLine (0 + front.length + 1)) = .malformedLine (0 + front.length + 1) := by
      rw [shift, if_neg hplace]
    rw [List.append_assoc, List.append_assoc, List.cons_append, List.cons_append,
      walk_of_isBad hkeys hbad, walk_of_isBad hkeys hbad]
    exact congrArg Except.error hshift.symm

/-! ## Files -/

/-- Reading a file is walking its lines, and a file without keys is refused. -/
theorem read_eq_walk (h : b.Holds data) :
    read b = match walk 0 (lines data) with
      | .ok [] => .error .noKeys
      | answer => answer := by
  have hwalk := readFrom_eq_walk h
  cases hanswer : walk 0 (lines data) with
  | error e => simp only [read, hwalk, hanswer]
  | ok keys => cases keys <;> simp only [read, hwalk, hanswer]

/-- The keys of a file are those on its lines, if there are any. -/
theorem read_eq_ok_iff (h : b.Holds data) {keys : List SecretKey} :
    read b = .ok keys ↔ Collected (lines data) keys ∧ keys ≠ [] := by
  rw [read_eq_walk h, ← walk_eq_ok_iff 0]
  cases walk 0 (lines data) with
  | error e => exact ⟨nofun, fun h => nomatch h.1⟩
  | ok found =>
      cases found with
      | nil => exact ⟨nofun, fun h => absurd (Except.ok.inj h.1).symm h.2⟩
      | cons k ks => exact ⟨fun h => ⟨h, Except.ok.inj h ▸ List.cons_ne_nil k ks⟩, fun h => h.1⟩

/-- The first bad line is reported, the lines counted from 1. -/
theorem read_eq_malformedLine_iff (h : b.Holds data) {number : Nat} :
    read b = .error (.malformedLine number) ↔ ∃ before line after keys,
      lines data = before ++ line :: after ∧ Collected before keys ∧ IsBad line ∧
        number = before.length + 1 := by
  have hwalk := walk_eq_error_iff 0 (lines data) (.malformedLine number)
  simp only [IdentityFileError.malformedLine.injEq, Nat.zero_add] at hwalk
  rw [read_eq_walk h, ← hwalk]
  cases walk 0 (lines data) with
  | error e => exact Iff.rfl
  | ok found => cases found <;> exact ⟨nofun, nofun⟩

/-- A file without a bad line may still have no keys. -/
theorem read_eq_noKeys_iff (h : b.Holds data) :
    read b = .error .noKeys ↔ Collected (lines data) [] := by
  rw [read_eq_walk h, ← walk_eq_ok_iff 0]
  cases hwalk : walk 0 (lines data) with
  | error e =>
      rcases (walk_eq_error_iff ..).1 hwalk with ⟨before, line, after, keys, -, -, -, rfl⟩
      exact ⟨nofun, nofun⟩
  | ok found =>
      cases found with
      | nil => exact ⟨fun _ => rfl, fun _ => rfl⟩
      | cons k ks => exact ⟨nofun, nofun⟩

/-- A source that delivers all of its bytes gives no other error. -/
theorem read_ne_io (h : b.Holds data) (cause : IoError) : read b ≠ .error (.io cause) := by
  rw [read_eq_walk h]
  cases hwalk : walk 0 (lines data) with
  | error e =>
      rcases (walk_eq_error_iff ..).1 hwalk with ⟨before, line, after, keys, -, -, -, rfl⟩
      exact nofun
  | ok found => cases found <;> exact nofun

/-- A file with more idle lines is read alike, but for the number of a bad line behind them. -/
theorem read_insert {τ : Type} [ByteSource τ] {c : Buffered τ} {data' : Bytes}
    {before idle after : List Bytes} (hb : b.Holds data) (hc : c.Holds data')
    (hlines : lines data = before ++ after) (hlines' : lines data' = before ++ (idle ++ after))
    (hidle : ∀ line ∈ idle, IsIdle line) :
    read c = (read b).mapError (shift before.length idle.length) := by
  rw [read_eq_walk hb, read_eq_walk hc, hlines, hlines', walk_insert hidle]
  cases walk 0 (before ++ after) with
  | error e => rfl
  | ok keys => cases keys <;> rfl

end IdentityFile
end AgeCrypt
