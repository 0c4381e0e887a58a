import AgeCrypt.Io.Buffered
import AgeCrypt.Proofs.Io.Delivery

/-!
# What a buffered source holds

A buffered source over a source that delivers holds the bytes in its buffer, and behind them what
the source will deliver (`Holds`).  If the source is only giving its data, the same is said with
what it gives (`Over`).  How much is read into the buffer at a time makes no difference:

* as a source, it delivers what it holds (`Holds.delivers`), and gives what it is over
  (`giving_over`);
* reading through a mark takes what `through` takes of these bytes, up to the limit
  (`Over.readThroughFrom`), so a line is cut off the front (`Over.readLine`).
-/

namespace AgeCrypt

def joinLines (lines : List Bytes) : Bytes :=
  lines.flatMap fun line => line ++ [Ascii.newline]

theorem joinLines_cons_append (line : Bytes) (lines : List Bytes) (rest : Bytes) :
    joinLines (line :: lines) ++ rest = line ++ Ascii.newline :: (joinLines lines ++ rest) := by
  simp [joinLines]

theorem joinLines_append (a b : List Bytes) : joinLines (a ++ b) = joinLines a ++ joinLines b :=
  List.flatMap_append

namespace Buffered

open ByteSource

variable {σ : Type} [ByteSource σ] {b c : Buffered σ} {data : Bytes} {ending : Option IoError}

/-- `b` has `data` to give, and then meets `ending`. -/
def Holds (b : Buffered σ) (data : Bytes) (ending : Option IoError := none) : Prop :=
  0 < b.capacity ∧ ∃ rest, data = b.buffer ++ rest ∧ Delivers b.inner rest ending

/-- `data` is what is in the buffer of `b` and what its source gives behind that. -/
def Over (gives : σ → Bytes → Prop) (b : Buffered σ) (data : Bytes) : Prop :=
  0 < b.capacity ∧ ∃ rest, data = b.buffer ++ rest ∧ gives b.inner rest

/-- The buffer of `b` is empty and its source has met the error at the end. -/
def Broken (broken : σ → Prop) (b : Buffered σ) : Prop :=
  0 < b.capacity ∧ b.buffer = [] ∧ broken b.inner

namespace Holds

/-- A buffer that is empty at first holds what its source delivers. -/
theorem of_delivers {s : σ} (h : Delivers s data ending) :
    Holds ({ inner := s } : Buffered σ) data ending :=
  ⟨Nat.zero_lt_succ _, data, rfl, h⟩

theorem toOver (h : b.Holds data ending) : b.Over (fun s data => Delivers s data ending) data := h

end Holds

section

variable {gives : σ → Bytes → Prop} {broken : σ → Prop}

omit [ByteSource σ] in
theorem Over.of_gives {s : σ} (h : gives s data) : ({ inner := s } : Buffered σ).Over gives data :=
  ⟨Nat.zero_lt_succ _, data, rfl, h⟩

omit [ByteSource σ] in
theorem Over.consume (h : b.Over gives data) {n : Nat} (hn : n ≤ b.buffer.length) :
    (b.consume n).Over gives (data.drop n) := by
  rcases h with ⟨hcapacity, rest, rfl, hrest⟩
  exact ⟨hcapacity, rest, List.drop_append_of_le_length hn, hrest⟩

inductive Filled (gives : σ → Bytes → Prop) (broken : σ → Prop) (data : Bytes)
    (ending : Option IoError) : Except IoError Unit × Buffered σ → Prop where
  -- The buffer stays empty only at the end of input.
  | ok {c : Buffered σ} (hc : c.Over gives data)
      (hend : c.buffer = [] → data = [] ∧ ending = none) : Filled gives broken data ending (.ok (), c)
  -- An interruption, which changes nothing.
  | pause {e : IoError} {c : Buffered σ} (he : e.isInterrupted = true) (hc : c.Over gives data) :
      Filled gives broken data ending (.error e, c)
  | fault {e : IoError} {c : Buffered σ} (he : e.isInterrupted = false) (hdata : data = [])
      (hend : ending = some e) (hc : c.Broken broken) : Filled gives broken data ending (.error e, c)

/-- Filling the buffer changes nothing of what is to come, up to the error at the end. -/
theorem Over.fill (G : Giving gives broken ending) (h : b.Over gives data) :
    Filled gives broken data ending b.fill := by
  have hstored := h
  rcases h with ⟨hcapacity, rest, rfl, hrest⟩
  unfold Buffered.fill
  by_cases hbuffer : b.buffer = []
  · rw [if_pos hbuffer, hbuffer, List.nil_append]
    have hanswered := G.answered hrest b.capacity
    generalize ByteSource.read b.inner b.capacity = answered at hanswered ⊢
    cases hanswered with
    | @piece got rest' t hdata hend ht =>
        refine .ok ⟨hcapacity, rest', hdata, ht⟩ ?_
        intro hnil
        exact (hend hnil).resolve_left (Nat.pos_iff_ne_zero.1 hcapacity)
    | pause he ht =>
        exact .pause he ⟨hcapacity, rest, by simp, ht⟩
    | fault he hdata hend ht =>
        exact .fault he hdata hend ⟨hcapacity, rfl, ht⟩
  · rw [if_neg hbuffer]
    exact .ok hstored fun hnil => absurd hnil hbuffer

/-- After a fill the buffer is empty only at the end of input. -/
theorem Over.of_fill_ok (G : Giving gives broken ending) (h : b.Over gives data)
    (hfill : b.fill = (.ok (), c)) :
    c.Over gives data ∧ (c.buffer = [] → data = [] ∧ ending = none) := by
  have hfilled := h.fill G
  rw [hfill] at hfilled
  cases hfilled with
  | ok hc hend => exact ⟨hc, hend⟩

/-- A fill that fails was interrupted, or met the error at the end. -/
theorem Over.of_fill_error (G : Giving gives broken ending) (h : b.Over gives data) {e : IoError}
    (hfill : b.fill = (.error e, c)) :
    e.isInterrupted = true ∧ c.Over gives data ∨
      e.isInterrupted = false ∧ data = [] ∧ ending = some e := by
  have hfilled := h.fill G
  rw [hfill] at hfilled
  cases hfilled with
  | pause he hc => exact .inl ⟨he, hc⟩
  | fault he hdata hend _ => exact .inr ⟨he, hdata, hend⟩

end

theorem Holds.of_fill_ok (h : b.Holds data ending) (hfill : b.fill = (.ok (), c)) :
    c.Holds data ending ∧ (c.buffer = [] → data = [] ∧ ending = none) :=
  h.toOver.of_fill_ok (Delivers.giving ending) hfill

/-! ## As a source -/

/-- A buffered source gives what is in its buffer and what its source gives. -/
theorem giving_over {gives : σ → Bytes → Prop} {broken : σ → Prop}
    (G : Giving gives broken ending) : Giving (Over gives) (Broken broken) ending where
  answered := by
    rintro c data ⟨hcapacity, rest, rfl, hrest⟩ n
    change Answered _ _ _ _ _ (Buffered.read c n)
    unfold Buffered.read
    split
    · rename_i hdirect
      rw [hdirect.1, List.nil_append]
      have hanswered := G.answered hrest n
      generalize ByteSource.read c.inner n = answered at hanswered ⊢
      cases hanswered with
      | @piece got rest' t hdata hend ht =>
          exact .piece hdata hend ⟨hcapacity, rest', by simp, ht⟩
      | pause he ht =>
          exact .pause he ⟨hcapacity, rest, by simp, ht⟩
      | fault he hdata hend ht =>
          exact .fault he hdata hend ⟨hcapacity, rfl, ht⟩
    · have hfilled := Over.fill (b := c) G ⟨hcapacity, rest, rfl, hrest⟩
      generalize c.fill = answered at hfilled ⊢
      cases hfilled with
      | @ok d hd hend =>
          rcases hd with ⟨hcapacity, rest', hdata, hrest'⟩
          have hsplit : c.buffer ++ rest = d.buffer.take n ++ (d.buffer.drop n ++ rest') := by
            rw [hdata, ← List.append_assoc, List.take_append_drop]
          refine .piece hsplit ?_ ⟨hcapacity, rest', rfl, hrest'⟩
          intro hnil
          rcases List.take_eq_nil_iff.1 hnil with h0 | hbuffer
          · exact .inl h0
          · exact .inr (hend hbuffer)
      | pause he hd => exact .pause he hd
      | fault he hdata hend hd => exact .fault he hdata hend hd

/-- A buffered source delivers what it holds. -/
theorem Holds.delivers (h : b.Holds data ending) : Delivers b data ending := by
  refine (giving_over (Delivers.giving ending)).delivers ?_ h.toOver
  rintro c ⟨hcapacity, hbuffer, hinner⟩
  exact ⟨hcapacity, [], by rw [hbuffer, List.nil_append], hinner⟩

/-- A buffered source holds only one thing. -/
theorem Holds.unique {a b' : Bytes} {x y : Option IoError} (ha : b.Holds a x) (hb : b.Holds b' y) :
    a = b' ∧ x = y :=
  Delivers.unique ha.delivers hb.delivers

/-! ## Reading through a mark -/

def clip (limit : Option Nat) (data : Bytes) : Bytes :=
  match limit with
  | none => data
  | some n => data.take n

omit [ByteSource σ] in
/-- What may be taken of the buffer is the first part of what may be taken at all. -/
theorem clip_eq_window_append (limit : Option Nat) (rest : Bytes) :
    clip limit (b.buffer ++ rest) = b.window limit ++
      clip (limit.map (· - (b.window limit).length))
        ((b.buffer ++ rest).drop (b.window limit).length) := by
  cases limit with
  | none => simp [clip, window]
  | some n =>
      simp only [clip, window, Option.map_some, List.length_take]
      by_cases hn : n ≤ b.buffer.length
      · rw [Nat.min_eq_left hn, Nat.sub_self, List.take_zero, List.append_nil,
          List.take_append_of_le_length hn]
      · have hle : b.buffer.length ≤ n := Nat.le_of_not_le hn
        rw [Nat.min_eq_right hle, List.drop_left, List.take_append, List.take_of_length_le hle]

/-- Bytes behind the first mark do not matter. -/
theorem through_append_of_found {mark : UInt8} {a : Bytes} (h : (through mark a).2 = true)
    (rest : Bytes) : through mark (a ++ rest) = through mark a := by
  induction a with
  | nil => cases h
  | cons x a ih =>
      simp only [through, List.cons_append] at h ⊢
      split
      · rfl
      · rename_i hx
        rw [if_neg hx] at h
        rw [ih h]

/-- Without the mark everything is taken. -/
theorem through_of_not_mem {mark : UInt8} {a : Bytes} (h : (through mark a).2 = false) :
    (through mark a).1 = a ∧ mark ∉ a := by
  induction a with
  | nil => exact ⟨rfl, List.not_mem_nil⟩
  | cons x a ih =>
      simp only [through] at h ⊢
      split at h
      · cases h
      · rename_i hx
        rcases ih h with ⟨htaken, hmem⟩
        rw [if_neg hx]
        refine ⟨by rw [htaken], ?_⟩
        intro hmark
        rcases List.mem_cons.1 hmark with rfl | hmark
        · exact hx rfl
        · exact hmem hmark

theorem through_of_notMem {mark : UInt8} {a : Bytes} (h : mark ∉ a) :
    through mark a = (a, false) := by
  induction a with
  | nil => rfl
  | cons x a ih =>
      have hx : x ≠ mark := by
        rintro rfl
        exact h (List.mem_cons_self ..)
      rw [through, if_neg hx, ih fun hmem => h (List.mem_cons_of_mem _ hmem)]

/-- Where the mark is still to come, all bytes are taken on the way to it. -/
theorem through_append_of_not_found {mark : UInt8} {a : Bytes} (h : (through mark a).2 = false)
    (rest : Bytes) :
    through mark (a ++ rest) = (a ++ (through mark rest).1, (through mark rest).2) := by
  induction a with
  | nil => rfl
  | cons x a ih =>
      simp only [through, List.cons_append] at h ⊢
      split at h
      · cases h
      · rename_i hx
        rw [if_neg hx, ih h]

omit [ByteSource σ] in
/-- A mark in the buffer is the first one of all that is to come. -/
theorem through_clip_of_found {mark : UInt8} {limit : Option Nat}
    (h : (through mark (b.window limit)).2 = true) (rest : Bytes) :
    through mark (clip limit (b.buffer ++ rest)) = through mark (b.window limit) := by
  rw [clip_eq_window_append, through_append_of_found h]

omit [ByteSource σ] in
/-- A mark that is not in the buffer is looked for in what follows, up to what is left of the
limit. -/
theorem through_clip_of_not_found {mark : UInt8} {limit : Option Nat}
    (h : (through mark (b.window limit)).2 = false) (rest : Bytes) :
    through mark (clip limit (b.buffer ++ rest)) =
      (b.window limit ++ (through mark (clip (limit.map (· - (b.window limit).length))
          ((b.buffer ++ rest).drop (b.window limit).length))).1,
        (through mark (clip (limit.map (· - (b.window limit).length))
          ((b.buffer ++ rest).drop (b.window limit).length))).2) := by
  rw [clip_eq_window_append, through_append_of_not_found h]

section

variable {gives : σ → Bytes → Prop} {broken : σ → Prop}

/-- Reading through a mark takes the bytes up to it or to the limit, whatever the buffer had of
them.  It fails only with the error that stands before either. -/
theorem Over.readThroughFrom (G : Giving gives broken ending) (h : b.Over gives data) (mark : UInt8)
    (limit : Option Nat) (acc : Array UInt8) :
    ∃ c, (readThroughFrom mark b limit acc =
          (.ok (acc ++ (through mark (clip limit data)).1), c) ∧
        c.Over gives (data.drop (through mark (clip limit data)).1.length)) ∨
      ∃ e, readThroughFrom mark b limit acc = (.error e, c) ∧ ending = some e ∧
        (through mark (clip limit data)).2 = false := by
  -- one case for each way a round can go; `data` shrinks by what the round took
  fun_induction Buffered.readThroughFrom mark b limit acc generalizing data with
  | case1 b acc =>
      exact ⟨b, .inl ⟨by simp [clip, through], by simpa [clip, through] using h⟩⟩
  | case2 b limit acc hlimit c hfill hwindow =>
      rcases h.of_fill_ok G hfill with ⟨hc, hend⟩
      have hbuffer : c.buffer = [] := by
        cases limit with
        | none => exact hwindow
        | some n =>
            rcases List.take_eq_nil_iff.1 hwindow with rfl | hnil
            · exact absurd rfl hlimit
            · exact hnil
      rcases hend hbuffer with ⟨rfl, rfl⟩
      have hnil : clip limit [] = [] := by
        cases limit <;> simp [clip]
      exact ⟨c, .inl ⟨by simp [hnil, through], by simpa [hnil, through] using hc⟩⟩
  | case3 b limit acc hlimit c hfill hwindow piece d =>
      rename_i hfound
      have hc := (h.of_fill_ok G hfill).1
      have hlen : piece.1.length ≤ c.buffer.length :=
        Nat.le_trans (length_through_le mark _) (length_window_le c limit)
      have htaken : through mark (clip limit data) = piece := by
        rcases hc with ⟨-, rest, rfl, -⟩
        exact through_clip_of_found hfound rest
      refine ⟨d, .inl ⟨by rw [htaken], ?_⟩⟩
      rw [htaken]
      exact hc.consume hlen
  | case4 b limit acc hlimit c hfill hwindow piece d hfound =>
      rename_i ih
      have hc := (h.of_fill_ok G hfill).1
      have hnot : (through mark (c.window limit)).2 = false := by
        simpa using hfound
      have hpiece : piece.1 = c.window limit := (through_of_not_mem hnot).1
      have hlen : piece.1.length ≤ c.buffer.length :=
        Nat.le_trans (length_through_le mark _) (length_window_le c limit)
      have htaken : through mark (clip limit data) =
          (piece.1 ++ (through mark (clip (limit.map (· - piece.1.length))
              (data.drop piece.1.length))).1,
            (through mark (clip (limit.map (· - piece.1.length))
              (data.drop piece.1.length))).2) := by
        rcases hc with ⟨-, rest, rfl, -⟩
        rw [hpiece]
        exact through_clip_of_not_found hnot rest
      rw [htaken]
      rcases ih (hc.consume hlen) with ⟨u, ⟨hu, hheld⟩ | ⟨e, hu, hend, hnone⟩⟩
      · refine ⟨u, .inl ⟨?_, ?_⟩⟩
        · rw [hu, append_append_list]
        · rw [List.length_append, ← List.drop_drop]
          exact hheld
      · exact ⟨u, .inr ⟨e, hu, hend, hnone⟩⟩
  | case5 b limit acc hlimit e c hfill hi ih =>
      rcases h.of_fill_error G hfill with ⟨-, hc⟩ | ⟨he, -, -⟩
      · exact ih hc
      · cases hi.symm.trans he
  | case6 b limit acc hlimit e c hfill hi =>
      rcases h.of_fill_error G hfill with ⟨he, -⟩ | ⟨-, hdata, hend⟩
      · exact absurd he hi
      · subst hdata
        refine ⟨c, .inr ⟨e, rfl, hend, ?_⟩⟩
        cases limit <;> simp [clip, through]

end

/-! ## Lines -/

/-- A line without the mark is taken with the mark that follows it. -/
theorem through_of_split {mark : UInt8} {line : Bytes} (h : mark ∉ line) (rest : Bytes) :
    through mark (line ++ mark :: rest) = (line ++ [mark], true) := by
  induction line with
  | nil => simp [through]
  | cons x line ih =>
      have hx : x ≠ mark := by
        rintro rfl
        exact h (List.mem_cons_self ..)
      have hline : mark ∉ line := fun hmem => h (List.mem_cons_of_mem _ hmem)
      rw [List.cons_append, through, if_neg hx, ih hline, List.cons_append]

/-- Bytes are cut at the first mark in one way. -/
theorem split_inj {mark : UInt8} {a b x y : Bytes} (ha : mark ∉ a) (hb : mark ∉ b)
    (h : a ++ mark :: x = b ++ mark :: y) : a = b ∧ x = y := by
  have htaken := congrArg (through mark) h
  rw [through_of_split ha, through_of_split hb] at htaken
  have hab : a = b := List.append_cancel_right (congrArg Prod.fst htaken)
  subst hab
  exact ⟨rfl, (List.cons.inj (List.append_cancel_left h)).2⟩

/-- What begins like a line with its mark, and does not have the mark, begins like the line. -/
theorem prefix_of_split {mark : UInt8} {a line rest : Bytes} (ha : mark ∉ a)
    (h : a <+: line ++ mark :: rest) : a <+: line := by
  by_cases hlen : a.length ≤ line.length
  · exact List.prefix_of_prefix_length_le h (List.prefix_append _ _) hlen
  · have hmarked : line ++ [mark] <+: line ++ mark :: rest :=
      ⟨rest, by rw [List.append_assoc, List.singleton_append]⟩
    have hline : line ++ [mark] <+: a := by
      refine List.prefix_of_prefix_length_le hmarked h ?_
      rw [List.length_append, List.length_singleton]
      omega
    exact absurd (hline.subset (List.mem_append_right _ (List.mem_singleton_self mark))) ha

/-- What is taken up to the mark ends with it, and has no other. -/
theorem of_through_found {mark : UInt8} {a : Bytes} (h : (through mark a).2 = true) :
    ∃ line rest, a = line ++ mark :: rest ∧ mark ∉ line ∧ (through mark a).1 = line ++ [mark] := by
  induction a with
  | nil => cases h
  | cons x a ih =>
      by_cases hx : x = mark
      · subst hx
        exact ⟨[], a, rfl, List.not_mem_nil, by simp [through]⟩
      · simp only [through, if_neg hx] at h ⊢
        rcases ih h with ⟨line, rest, rfl, hmem, htaken⟩
        refine ⟨x :: line, rest, rfl, ?_, ?_⟩
        · intro hmark
          rcases List.mem_cons.1 hmark with rfl | hmark
          · exact hx rfl
          · exact hmem hmark
        · rw [htaken, List.cons_append]

theorem through_prefix (mark : UInt8) (data : Bytes) : (through mark data).1 <+: data := by
  induction data with
  | nil => exact List.nil_prefix
  | cons x data ih =>
      rw [through]
      split
      · exact ⟨data, rfl⟩
      · exact (List.prefix_cons_inj x).2 ih

/-- A line is what stands up to the line feed or to the limit. -/
theorem Over.readLine {gives : σ → Bytes → Prop} {broken : σ → Prop}
    (G : Giving gives broken ending) (h : b.Over gives data) (limit : Option Nat) :
    ∃ c, (b.readLine limit = (.ok (through Ascii.newline (clip limit data)).1, c) ∧
        c.Over gives (data.drop (through Ascii.newline (clip limit data)).1.length)) ∨
      ∃ e, b.readLine limit = (.error e, c) ∧ ending = some e ∧
        (through Ascii.newline (clip limit data)).2 = false := by
  unfold Buffered.readLine readThrough
  rcases h.readThroughFrom G Ascii.newline limit #[] with
    ⟨c, ⟨hread, hrest⟩ | ⟨e, hread, hend, hnone⟩⟩
  · exact ⟨c, .inl ⟨by simp [hread], hrest⟩⟩
  · exact ⟨c, .inr ⟨e, by simp [hread], hend, hnone⟩⟩

/-- A line is read as it stands, up to the limit; or the error at the end is met before there is
one. -/
theorem Holds.readLine (h : b.Holds data ending) (limit : Option Nat) :
    ∃ c, (b.readLine limit = (.ok (through Ascii.newline (clip limit data)).1, c) ∧
        c.Holds (data.drop (through Ascii.newline (clip limit data)).1.length) ending) ∨
      ∃ e, b.readLine limit = (.error e, c) ∧ ending = some e ∧
        (through Ascii.newline (clip limit data)).2 = false :=
  h.toOver.readLine (Delivers.giving ending) limit

/-- A line that ends in a line feed is read, whatever follows. -/
theorem Holds.readLine_of_split {line more : Bytes} (hline : Ascii.newline ∉ line)
    (h : b.Holds (line ++ Ascii.newline :: more) ending) :
    ∃ c, b.readLine = (.ok (line ++ [Ascii.newline]), c) ∧ c.Holds more ending := by
  have hthrough := through_of_split hline more
  rcases h.readLine none with ⟨c, ⟨hread, hheld⟩ | ⟨e, -, -, hnone⟩⟩
  · rw [clip, hthrough] at hread hheld
    exact ⟨c, hread, by simpa using hheld⟩
  · rw [clip, hthrough] at hnone
    cases hnone

/-- What has no line feed is a line, and nothing is left. -/
theorem Holds.readLine_of_notMem {line : Bytes} (hline : Ascii.newline ∉ line) (h : b.Holds line) :
    ∃ c, b.readLine = (.ok line, c) ∧ c.Holds [] := by
  have hthrough := through_of_notMem hline
  rcases h.readLine none with ⟨c, ⟨hread, hheld⟩ | ⟨e, -, hend, -⟩⟩
  · rw [clip, hthrough] at hread hheld
    exact ⟨c, hread, by simpa using hheld⟩
  · cases hend

/-- What is read as a line ends with its line feed, or is all there is and has none. -/
theorem Holds.of_readLine_ok {got : Bytes} (h : b.Holds data) (hr : b.readLine = (.ok got, c)) :
    (∃ line rest, Ascii.newline ∉ line ∧ got = line ++ [Ascii.newline] ∧
      data = line ++ Ascii.newline :: rest ∧ c.Holds rest) ∨
      Ascii.newline ∉ data ∧ got = data ∧ c.Holds [] := by
  cases hfound : (through Ascii.newline data).2 with
  | true =>
      rcases of_through_found hfound with ⟨line, rest, rfl, hline, -⟩
      rcases h.readLine_of_split hline with ⟨d, hread, hheld⟩
      cases hr.symm.trans hread
      exact .inl ⟨line, rest, hline, rfl, rfl, hheld⟩
  | false =>
      have hnone := (through_of_not_mem hfound).2
      rcases h.readLine_of_notMem hnone with ⟨d, hread, hheld⟩
      cases hr.symm.trans hread
      exact .inr ⟨hnone, rfl, hheld⟩

/-! ## The rest -/

/-- Reading to the end gives all that is held, in the buffer and behind it. -/
theorem Holds.readToEnd (h : b.Holds data ending) :
    ∃ c, b.readToEnd = (gathered data ending, c) := by
  rcases h with ⟨-, rest, rfl, hrest⟩
  rcases readToEndFrom_of_delivers b.buffer.toArray hrest (Gathering.limit_start _) with ⟨t, ht⟩
  refine ⟨{ b with inner := t, buffer := [] }, ?_⟩
  rw [Buffered.readToEnd, ht]
  cases ending with
  | none => simp [gathered, Except.map]
  | some e => rfl

end Buffered
end AgeCrypt
