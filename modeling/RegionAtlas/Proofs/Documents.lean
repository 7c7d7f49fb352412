/-
  Documents — a value is read from any text it is set in.

  Compact and pretty text differ in their spaces only, so both are one text with spaces to be chosen
  (`Layout`, `compactChars_eq`, `prettyChars_eq`), and the reader passes over spaces wherever the
  writer may put them.  What the reader makes of a value is its node (`Json.node`).

      written v ++ rest   is read as   node v, with rest left

  1. The reader may as well start behind the space (`readValue_skipSpace` and the others).
  2. What is written of a value begins with a character that is no space and closes nothing
     (`written_head`), which is how the reader tells an empty array from one with items.
  3. By recursion along the value, with items and fields beside it (`readValue_written`).  The fuel
     is counted in characters: every step of the reader is paid for by one of them, an item by the
     comma in front of it.
  4. A document is a value with nothing behind it (`read_compact`, `read_pretty`).
-/
import RegionAtlas.Proofs.Tokens

namespace RegionAtlas

namespace Json

/-! ## Layouts -/

/-- Where a writer puts spaces: before an item or a field at a depth, and behind a colon. -/
structure Layout where
  gap : Nat → List Char
  colon : List Char
  blank_gap : ∀ depth, ∀ c ∈ gap depth, Source.isSpace c = true
  blank_colon : ∀ c ∈ colon, Source.isSpace c = true

/-- No spaces at all. -/
def Layout.tight : Layout where
  gap _ := []
  colon := []
  blank_gap _ _ hc := nomatch hc
  blank_colon _ hc := nomatch hc

/-- Items and fields on lines of their own. -/
def Layout.lines : Layout where
  gap := newline
  colon := [' ']
  blank_gap depth c hc := by
    rcases List.mem_cons.mp hc with rfl | hc
    · rfl
    · rw [List.eq_of_mem_replicate hc]
      rfl
  blank_colon c hc := by
    rw [List.mem_singleton.mp hc]
    rfl

mutual

/-- The value in a layout. -/
def written (l : Layout) (depth : Nat) : Json → List Char
  | null => "null".toList
  | bool b => literal b
  | integer n => number n
  | string s => quoted s
  | array [] => ['[', ']']
  | array (v :: rest) =>
    '[' :: (writtenItems l (depth + 1) (v :: rest) ++ l.gap depth ++ [']'])
  | object [] => ['\x7b', '\x7d']
  | object (f :: rest) =>
    '\x7b' :: (writtenFields l (depth + 1) (f :: rest) ++ l.gap depth ++ ['\x7d'])

def writtenItems (l : Layout) (depth : Nat) : List Json → List Char
  | [] => []
  | [v] => l.gap depth ++ v.written l depth
  | v :: w :: rest =>
    l.gap depth ++ v.written l depth ++ ',' :: writtenItems l depth (w :: rest)

def writtenFields (l : Layout) (depth : Nat) : List (String × Json) → List Char
  | [] => []
  | [(k, v)] => l.gap depth ++ quoted k ++ ':' :: (l.colon ++ v.written l depth)
  | (k, v) :: f :: rest =>
    l.gap depth ++ quoted k ++ ':' :: (l.colon ++ v.written l depth ++
      ',' :: writtenFields l depth (f :: rest))

end

mutual

/-- **Compact text is text without spaces.** -/
theorem compactChars_eq (depth : Nat) : ∀ v : Json, v.compactChars = v.written .tight depth
  | null => rfl
  | bool _ => rfl
  | integer _ => rfl
  | string _ => rfl
  | array [] => rfl
  | array (v :: rest) => by
    rw [compactChars, written, compactItems_eq (depth + 1) (v :: rest)]
    simp only [Layout.tight, List.append_nil]
  | object [] => rfl
  | object (f :: rest) => by
    rw [compactChars, written, compactFields_eq (depth + 1) (f :: rest)]
    simp only [Layout.tight, List.append_nil]

/-- Items and fields go along with values, since values are made of them. -/
theorem compactItems_eq (depth : Nat) :
    ∀ vs : List Json, compactItems vs = writtenItems .tight depth vs
  | [] => rfl
  | [v] => by
    rw [compactItems, writtenItems, compactChars_eq depth v]
    rfl
  | v :: w :: rest => by
    rw [compactItems, writtenItems, compactChars_eq depth v, compactItems_eq depth (w :: rest)]
    rfl

theorem compactFields_eq (depth : Nat) :
    ∀ fs : List (String × Json), compactFields fs = writtenFields .tight depth fs
  | [] => rfl
  | [(k, v)] => by
    rw [compactFields, writtenFields, compactChars_eq depth v]
    rfl
  | (k, v) :: f :: rest => by
    rw [compactFields, writtenFields, compactChars_eq depth v, compactFields_eq depth (f :: rest)]
    rfl

end

mutual

/-- **Pretty text is text with lines.** -/
theorem prettyChars_eq (depth : Nat) : ∀ v : Json, v.prettyChars depth = v.written .lines depth
  | null => rfl
  | bool _ => rfl
  | integer _ => rfl
  | string _ => rfl
  | array [] => rfl
  | array (v :: rest) => by
    rw [prettyChars, written, prettyItems_eq (depth + 1) (v :: rest)]
    rfl
  | object [] => rfl
  | object (f :: rest) => by
    rw [prettyChars, written, prettyFields_eq (depth + 1) (f :: rest)]
    rfl

theorem prettyItems_eq (depth : Nat) :
    ∀ vs : List Json, prettyItems depth vs = writtenItems .lines depth vs
  | [] => rfl
  | [v] => by
    rw [prettyItems, writtenItems, prettyChars_eq depth v]
    rfl
  | v :: w :: rest => by
    rw [prettyItems, writtenItems, prettyChars_eq depth v, prettyItems_eq depth (w :: rest)]
    rfl

theorem prettyFields_eq (depth : Nat) :
    ∀ fs : List (String × Json), prettyFields depth fs = writtenFields .lines depth fs
  | [] => rfl
  | [(k, v)] => by
    rw [prettyFields, writtenFields, prettyChars_eq depth v]
    rfl
  | (k, v) :: f :: rest => by
    rw [prettyFields, writtenFields, prettyChars_eq depth v, prettyFields_eq depth (f :: rest)]
    rfl

end

/-! ## Nodes -/

mutual

/-- What a value is read as. -/
def node : Json → Node
  | null => .null
  | bool b => .bool b
  | integer n => .integer n
  | string s => .string (some s)
  | array items => .array (nodes items) none
  | object fields => .object (fieldNodes fields) none

def nodes : List Json → List Node
  | [] => []
  | v :: rest => v.node :: nodes rest

def fieldNodes : List (String × Json) → List (Option String × Node)
  | [] => []
  | (k, v) :: rest => (some k, v.node) :: fieldNodes rest

end

/-! ## 1. Space in front -/

/-- Where space was passed over, there is none left. -/
theorem skipSpace_skipSpace (src : Source) : src.skipSpace.skipSpace = src.skipSpace := by
  induction src with
  | nil => rfl
  | cons s rest ih =>
    cases s with
    | none => rfl
    | some c =>
      rw [Source.skipSpace]
      split
      · exact ih
      · next h => exact skipSpace_cons (Bool.eq_false_iff.mpr h) rest

/-- A value passes over the space in front of it first of all, so it may as well be gone. -/
theorem readValue_skipSpace (fuel : Nat) (src : Source) :
    readValue fuel src.skipSpace = readValue fuel src := by
  cases fuel with
  | zero => rw [readValue, readValue]
  | succ fuel => rw [readValue, readValue, skipSpace_skipSpace]

/-- Items begin with a value, so the same holds of them. -/
theorem readItems_skipSpace (fuel : Nat) (src : Source) :
    readItems fuel src.skipSpace = readItems fuel src := by
  cases fuel with
  | zero => rw [readItems, readItems]
  | succ fuel => rw [readItems, readItems, readValue_skipSpace]

/-- And of fields, which look for the quote of a name behind the space. -/
theorem readFields_skipSpace (fuel : Nat) (src : Source) :
    readFields fuel src.skipSpace = readFields fuel src := by
  cases fuel with
  | zero => rw [readFields, readFields]
  | succ fuel => rw [readFields, readFields, skipSpace_skipSpace]

/-- The four characters as a list, so that what holds of each can be decided. -/
theorem isSpace_iff {c : Char} : Source.isSpace c = true ↔ c ∈ [' ', '\n', '\t', '\r'] := by
  simp only [Source.isSpace, Bool.or_eq_true, beq_iff_eq, or_assoc, List.mem_cons,
    List.not_mem_nil, or_false]

/-- What stands behind space ends a number, if it does so itself. -/
theorem endsNumber_append {gap : List Char} (hgap : ∀ c ∈ gap, Source.isSpace c = true)
    {src : Source} (hsrc : src.EndsNumber) : Source.EndsNumber (gap.map some ++ src) := by
  cases gap with
  | nil => exact hsrc
  | cons c rest =>
    have hspaces : ∀ c ∈ [' ', '\n', '\t', '\r'],
        isDigit c = false ∧ c ≠ '.' ∧ c ≠ 'e' ∧ c ≠ 'E' := by
      simp only [List.forall_mem_cons, List.not_mem_nil, false_implies, implies_true, and_true]
      decide
    exact hspaces c (isSpace_iff.mp (hgap c List.mem_cons_self))

/-! ## 2. How a value begins -/

/-- A number that is not negative is its digits. -/
theorem number_ofNat (n : Nat) : number (.ofNat n) = Nat.toDigits 10 n := Nat.toList_repr

/-- A negative one is a sign and the digits of its distance from zero. -/
theorem number_negSucc (n : Nat) : number (.negSucc n) = '-' :: Nat.toDigits 10 (n + 1) := by
  show ("-" ++ Nat.repr (n + 1)).toList = _
  rw [String.toList_append, Nat.toList_repr]
  rfl

/-- A digit is no space, closes nothing, and is not what any other value begins with. -/
theorem ne_of_isDigit {c : Char} (h : isDigit c = true) :
    ∀ d ∈ [' ', '\n', '\t', '\r', ']', 'n', 't', 'f', '-'], c ≠ d := by
  have hothers : ∀ d ∈ [' ', '\n', '\t', '\r', ']', 'n', 't', 'f', '-'], isDigit d = false := by
    simp only [List.forall_mem_cons, List.not_mem_nil, false_implies, implies_true, and_true]
    decide
  rintro d hd rfl
  rw [hothers c hd] at h
  cases h

/-- So space that is passed over never takes a digit with it. -/
theorem isSpace_of_isDigit {c : Char} (h : isDigit c = true) : Source.isSpace c = false := by
  refine Bool.eq_false_iff.mpr fun hspace => ?_
  exact ne_of_isDigit h c (List.mem_append_left _ (isSpace_iff.mp hspace)) rfl

/-- Even zero has a digit, by which a number is known. -/
theorem exists_toDigits_eq_cons (n : Nat) :
    ∃ c cs, Nat.toDigits 10 n = c :: cs ∧ isDigit c = true := by
  obtain ⟨c, cs, hdigits⟩ := List.exists_cons_of_ne_nil (Nat.toDigits_ne_nil (n := n) (b := 10))
  exact ⟨c, cs, hdigits, isDigit_of_mem_toDigits (n := n) (hdigits ▸ List.mem_cons_self)⟩

/-- **A value begins with a character that is no space and closes nothing.** -/
theorem written_head (l : Layout) (depth : Nat) (v : Json) :
    ∃ c cs, v.written l depth = c :: cs ∧ Source.isSpace c = false ∧ c ≠ ']' := by
  cases v with
  | null => exact ⟨_, _, rfl, by decide, by decide⟩
  | bool b => cases b <;> exact ⟨_, _, rfl, by decide, by decide⟩
  | integer n =>
    cases n with
    | ofNat n =>
      obtain ⟨c, cs, hdigits, hc⟩ := exists_toDigits_eq_cons n
      exact ⟨c, cs, (number_ofNat n).trans hdigits, isSpace_of_isDigit hc,
        ne_of_isDigit hc ']' (by decide)⟩
    | negSucc n => exact ⟨_, _, number_negSucc n, by decide, by decide⟩
  | string s => exact ⟨_, _, rfl, by decide, by decide⟩
  | array items => cases items <;> exact ⟨_, _, rfl, by decide, by decide⟩
  | object fields => cases fields <;> exact ⟨_, _, rfl, by decide, by decide⟩

/-! ## 3. Reading -/

section Literals

variable (fuel : Nat) (src : Source)

/-- The first letter of a literal decides which one it has to be. -/
theorem readValue_null :
    readValue (fuel + 1) ("null".toList.map some ++ src) = (.null, some src) := by
  show readValue (fuel + 1) (some 'n' :: ("ull".toList.map some ++ src)) = _
  rw [readValue, skipSpace_cons (by decide)]
  exact readLiteral_append .null "ull".toList src

theorem readValue_bool (b : Bool) :
    readValue (fuel + 1) ((literal b).map some ++ src) = (.bool b, some src) := by
  cases b with
  | false =>
    show readValue (fuel + 1) (some 'f' :: ("alse".toList.map some ++ src)) = _
    rw [readValue, skipSpace_cons (by decide)]
    exact readLiteral_append (.bool false) "alse".toList src
  | true =>
    show readValue (fuel + 1) (some 't' :: ("rue".toList.map some ++ src)) = _
    rw [readValue, skipSpace_cons (by decide)]
    exact readLiteral_append (.bool true) "rue".toList src

/-- The quote in front of a string is taken off before it is read up to the one behind it. -/
theorem readValue_string (s : String) :
    readValue (fuel + 1) ((quoted s).map some ++ src) = (.string (some s), some src) := by
  show readValue (fuel + 1) (some '"' :: ((s.toList.flatMap escape ++ ['"']).map some ++ src)) = _
  rw [readValue, skipSpace_cons (by decide)]
  simp only [readString_quoted]
  rfl

/-- Numbers are the only values that need to know what follows, since digits have no end of their
own. -/
theorem readValue_number (n : Int) {src : Source} (hsrc : src.EndsNumber) :
    readValue (fuel + 1) ((number n).map some ++ src) = (.integer n, some src) := by
  cases n with
  | ofNat n =>
    obtain ⟨c, cs, hdigits, hc⟩ := exists_toDigits_eq_cons n
    have hread := readNumber_toDigits false n hsrc
    rw [hdigits] at hread
    rw [number_ofNat, hdigits]
    show readValue (fuel + 1) (some c :: (cs.map some ++ src)) = _
    have hne := ne_of_isDigit hc
    rw [readValue, skipSpace_cons (isSpace_of_isDigit hc)]
    dsimp only
    rw [if_neg (hne 'n' (by decide)), if_neg (hne 't' (by decide)), if_neg (hne 'f' (by decide)),
      if_neg (hne '-' (by decide)), if_pos hc]
    exact hread
  | negSucc n =>
    rw [number_negSucc]
    show readValue (fuel + 1) (some '-' :: ((Nat.toDigits 10 (n + 1)).map some ++ src)) = _
    rw [readValue, skipSpace_cons (by decide)]
    exact readNumber_toDigits true (n + 1) hsrc

end Literals

/-! ### Items and fields -/

/-- An array is what is read of its items, if they come to an end. -/
theorem readValue_array (fuel : Nat) {src rest : Source} {items : List Node}
    (h : Items.first ']' src (readItems fuel) = ⟨items, none, some rest⟩) :
    readValue (fuel + 1) (some '[' :: src) = (.array items none, some rest) := by
  rw [readValue, skipSpace_cons (by decide)]
  show ((Node.array (Items.first ']' src (readItems fuel)).items _, _) : Reading) = _
  rw [h]

/-- An object is what is read of its fields, likewise. -/
theorem readValue_object (fuel : Nat) {src rest : Source} {fields : List (Option String × Node)}
    (h : Items.first '\x7d' src (readFields fuel) = ⟨fields, none, some rest⟩) :
    readValue (fuel + 1) (some '\x7b' :: src) = (.object fields none, some rest) := by
  rw [readValue, skipSpace_cons (by decide)]
  show ((Node.object (Items.first '\x7d' src (readFields fuel)).items _, _) : Reading) = _
  rw [h]

/-- Nothing is read of what closes at once. -/
theorem first_closed {α : Type} {close : Char} {src rest : Source}
    (hsrc : src.skipSpace = some close :: rest) (more : Source → Items α) :
    Items.first close src more = .closed rest := by
  rw [Items.first, hsrc]
  exact if_pos rfl

/-- Where it does not close at once, the first item is read from where it stands. -/
theorem first_more {α : Type} {close c : Char} {src rest : Source}
    (hsrc : src.skipSpace = some c :: rest) (hc : c ≠ close) {more : Source → Items α}
    (hmore : more src.skipSpace = more src) : Items.first close src more = more src := by
  rw [← hmore, Items.first, hsrc]
  exact if_neg fun h => hc (Option.some.inj h)

/-- Behind an item may stand what closes, and then no more is read. -/
theorem next_closed {α : Type} {close : Char} {src rest : Source}
    (hsrc : src.skipSpace = some close :: rest) (more : Source → Items α) :
    Items.next close src more = .closed rest := by
  rw [Items.next, hsrc]
  exact if_pos rfl

/-- Or a comma, and then another item is. -/
theorem next_comma {α : Type} {close : Char} (hclose : ',' ≠ close) (src : Source)
    (more : Source → Items α) : Items.next close (some ',' :: src) more = more src := by
  rw [Items.next, skipSpace_cons (by decide)]
  dsimp only
  rw [if_neg fun h => hclose (Option.some.inj h), if_pos rfl]

/-- A field behind its name and colon. -/
theorem readFields_name {fuel : Nat} {src rest behind more : Source} {key : Option String}
    (hsrc : src.skipSpace = some '"' :: rest) (hkey : readString rest = .ok (key, behind))
    (hcolon : behind.skipSpace = some ':' :: more) :
    readFields (fuel + 1) src =
      match readValue fuel more with
      | (node, none) => .brokenIn (key, node)
      | (node, some rest) =>
        (Items.next '\x7d' rest (readFields fuel)).cons (key, node) := by
  rw [readFields, hsrc]
  split
  · next h => cases h
  · next h =>
    cases h
    rw [hkey]
    dsimp only
    rw [hcolon]
    split
    · next h => cases h
    · next h =>
      cases h
      rfl
    · next h => exact absurd rfl (h _)
  · next h => exact absurd rfl (h _)

section Steps

variable (l : Layout) (depth : Nat) {v : Json} {fuel : Nat} {behind : Source}

/-- A gap in front of a value is passed over. -/
theorem readValue_gap {gap : List Char} (hgap : ∀ c ∈ gap, Source.isSpace c = true) (src : Source) :
    readValue fuel (gap.map some ++ src) = readValue fuel src := by
  rw [← readValue_skipSpace, skipSpace_append hgap, readValue_skipSpace]

/-- **One item**, where its value is read from its text. -/
theorem readItems_step
    (hv : readValue fuel ((v.written l depth).map some ++ behind) = (v.node, some behind)) :
    readItems (fuel + 1) ((l.gap depth ++ v.written l depth).map some ++ behind) =
      (Items.next ']' behind (readItems fuel)).cons v.node := by
  rw [List.map_append, List.append_assoc, readItems, readValue_gap (l.blank_gap depth), hv]

/-- **One field**, where its value is read from its text. -/
theorem readFields_step (k : String)
    (hv : readValue fuel ((v.written l depth).map some ++ behind) = (v.node, some behind)) :
    readFields (fuel + 1)
        ((l.gap depth ++ quoted k ++ ':' :: (l.colon ++ v.written l depth)).map some ++ behind) =
      (Items.next '\x7d' behind (readFields fuel)).cons (some k, v.node) := by
  have htext : (l.gap depth ++ quoted k ++ ':' :: (l.colon ++ v.written l depth)).map some ++
      behind = (l.gap depth).map some ++ some '"' ::
        ((k.toList.flatMap escape ++ ['"']).map some ++ some ':' ::
          (l.colon.map some ++ ((v.written l depth).map some ++ behind))) := by
    simp only [quoted, List.map_append, List.map_cons, List.append_assoc, List.cons_append]
  rw [htext, readFields_name ((skipSpace_append (l.blank_gap depth) _).trans
      (skipSpace_cons (by decide) _)) (readString_quoted k _) (skipSpace_cons (by decide) _),
    readValue_gap l.blank_colon, hv]

/-- Where an item begins, nothing closes. -/
theorem skipSpace_writtenItems (rest : List Json) (tail : Source) :
    ∃ c src, Source.skipSpace ((writtenItems l depth (v :: rest)).map some ++ tail) =
      some c :: src ∧ c ≠ ']' := by
  obtain ⟨c, cs, hhead, hspace, hclose⟩ := written_head l depth v
  have hskip : ∀ more : Source, Source.skipSpace
      ((l.gap depth).map some ++ (some c :: more)) = some c :: more := by
    intro more
    rw [skipSpace_append (l.blank_gap depth), skipSpace_cons hspace]
  cases rest with
  | nil =>
    rw [writtenItems, hhead, List.map_append, List.append_assoc]
    exact ⟨c, _, hskip _, hclose⟩
  | cons w rest =>
    rw [writtenItems, hhead, List.map_append, List.map_append, List.append_assoc,
      List.append_assoc]
    exact ⟨c, _, hskip _, hclose⟩

/-- A field begins with its name. -/
theorem skipSpace_writtenFields (f : String × Json) (rest : List (String × Json)) (tail : Source) :
    ∃ src, Source.skipSpace ((writtenFields l depth (f :: rest)).map some ++ tail) =
      some '"' :: src := by
  obtain ⟨k, v⟩ := f
  have hskip : ∀ more : Source, Source.skipSpace
      ((l.gap depth).map some ++ (some '"' :: more)) = some '"' :: more := by
    intro more
    rw [skipSpace_append (l.blank_gap depth), skipSpace_cons (by decide)]
  cases rest with
  | nil =>
    rw [writtenFields, List.map_append, List.map_append, List.append_assoc, List.append_assoc]
    exact ⟨_, hskip _⟩
  | cons w rest =>
    rw [writtenFields, List.map_append, List.map_append, List.append_assoc, List.append_assoc]
    exact ⟨_, hskip _⟩

end Steps

/-- What stands behind a value. -/
theorem marks {c : Char} (h : c ∈ [',', ']', '\x7d']) (src : Source) :
    Source.isSpace c = false ∧ Source.EndsNumber (some c :: src) := by
  have hmarks : ∀ c ∈ [',', ']', '\x7d'],
      Source.isSpace c = false ∧ isDigit c = false ∧ c ≠ '.' ∧ c ≠ 'e' ∧ c ≠ 'E' := by
    simp only [List.forall_mem_cons, List.not_mem_nil, false_implies, implies_true, and_true]
    decide
  exact hmarks c h

/-- What closes an array or an object, behind its gap. -/
theorem closing (l : Layout) (depth : Nat) {close : Char} (h : close ∈ [',', ']', '\x7d'])
    (src : Source) :
    Source.EndsNumber ((l.gap depth).map some ++ some close :: src) ∧
      Source.skipSpace ((l.gap depth).map some ++ some close :: src) = some close :: src := by
  refine ⟨endsNumber_append (l.blank_gap depth) (marks h src).2, ?_⟩
  rw [skipSpace_append (l.blank_gap depth), skipSpace_cons (marks h src).1]

variable (l : Layout)

mutual

/-- **A value is read from its text, whatever stands behind it.** -/
theorem readValue_written (depth : Nat) :
    ∀ (v : Json) (fuel : Nat) (src : Source), 2 * (v.written l depth).length ≤ fuel →
      src.EndsNumber → readValue fuel ((v.written l depth).map some ++ src) = (v.node, some src)
  | v, 0, _, hfuel, _ => by
    obtain ⟨c, cs, hhead, -⟩ := written_head l depth v
    rw [hhead, List.length_cons] at hfuel
    omega
  | null, fuel + 1, src, _, _ => readValue_null fuel src
  | bool b, fuel + 1, src, _, _ => readValue_bool fuel src b
  | integer n, fuel + 1, src, _, hsrc => readValue_number fuel n hsrc
  | string s, fuel + 1, src, _, _ => readValue_string fuel src s
  | array [], fuel + 1, src, _, _ => by
    have hread := readValue_array fuel (first_closed (skipSpace_cons (c := ']') (by decide) src)
      (readItems fuel))
    exact hread
  | array (v :: rest), fuel + 1, src, hfuel, _ => by
    rw [written, List.length_cons, List.length_append, List.length_append] at hfuel
    obtain ⟨hends, htail⟩ := closing l depth (show ']' ∈ [',', ']', '\x7d'] by decide) src
    have hitems := readItems_written (depth + 1) (v :: rest) fuel _ _ (List.cons_ne_nil _ _)
      (by omega) hends htail
    obtain ⟨c, more, hskip, hclose⟩ := skipSpace_writtenItems l (depth + 1) rest _
    have hfirst := first_more hskip hclose (readItems_skipSpace fuel _)
    have hread := readValue_array fuel (hfirst.trans hitems)
    simp only [written, List.map_cons, List.map_append, List.append_assoc, List.cons_append]
    exact hread
  | object [], fuel + 1, src, _, _ => by
    have hread := readValue_object fuel (first_closed
      (skipSpace_cons (c := '\x7d') (by decide) src) (readFields fuel))
    exact hread
  | object (f :: rest), fuel + 1, src, hfuel, _ => by
    rw [written, List.length_cons, List.length_append, List.length_append] at hfuel
    obtain ⟨hends, htail⟩ := closing l depth (show '\x7d' ∈ [',', ']', '\x7d'] by decide) src
    have hfields := readFields_written (depth + 1) (f :: rest) fuel _ _ (List.cons_ne_nil _ _)
      (by omega) hends htail
    obtain ⟨more, hskip⟩ := skipSpace_writtenFields l (depth + 1) f rest _
    have hfirst := first_more hskip (show '"' ≠ '\x7d' by decide) (readFields_skipSpace fuel _)
    have hread := readValue_object fuel (hfirst.trans hfields)
    simp only [written, List.map_cons, List.map_append, List.append_assoc, List.cons_append]
    exact hread

theorem readItems_written (depth : Nat) :
    ∀ (vs : List Json) (fuel : Nat) (tail src : Source), vs ≠ [] →
      2 * (writtenItems l depth vs).length + 1 ≤ fuel → tail.EndsNumber →
      tail.skipSpace = some ']' :: src →
      readItems fuel ((writtenItems l depth vs).map some ++ tail) = ⟨nodes vs, none, some src⟩
  | [], _, _, _, hsome, _, _, _ => absurd rfl hsome
  | _, 0, _, _, _, hfuel, _, _ => by omega
  | [v], fuel + 1, tail, src, _, hfuel, hends, htail => by
    rw [writtenItems, List.length_append] at hfuel
    have hv := readValue_written depth v fuel _ (by omega) hends
    rw [writtenItems, readItems_step l depth hv, next_closed htail]
    rfl
  | v :: w :: rest, fuel + 1, tail, src, _, hfuel, hends, htail => by
    rw [writtenItems, List.length_append, List.length_append, List.length_cons] at hfuel
    have hrest := readItems_written depth (w :: rest) fuel _ _ (List.cons_ne_nil _ _)
      (by omega) hends htail
    have hv := readValue_written depth v fuel
      (some ',' :: ((writtenItems l depth (w :: rest)).map some ++ tail))
      (by omega) (marks (by decide) _).2
    have hstep := readItems_step l depth hv
    rw [next_comma (by decide), hrest] at hstep
    rw [writtenItems, List.map_append, List.append_assoc]
    exact hstep

theorem readFields_written (depth : Nat) :
    ∀ (fs : List (String × Json)) (fuel : Nat) (tail src : Source), fs ≠ [] →
      2 * (writtenFields l depth fs).length + 1 ≤ fuel → tail.EndsNumber →
      tail.skipSpace = some '\x7d' :: src →
      readFields fuel ((writtenFields l depth fs).map some ++ tail) =
        ⟨fieldNodes fs, none, some src⟩
  | [], _, _, _, hsome, _, _, _ => absurd rfl hsome
  | _, 0, _, _, _, hfuel, _, _ => by omega
  | [(k, v)], fuel + 1, tail, src, _, hfuel, hends, htail => by
    simp only [writtenFields, List.length_append, List.length_cons] at hfuel
    have hv := readValue_written depth v fuel _ (by omega) hends
    rw [writtenFields, readFields_step l depth k hv, next_closed htail]
    rfl
  | (k, v) :: f :: rest, fuel + 1, tail, src, _, hfuel, hends, htail => by
    simp only [writtenFields, List.length_append, List.length_cons] at hfuel
    have hrest := readFields_written depth (f :: rest) fuel _ _ (List.cons_ne_nil _ _)
      (by omega) hends htail
    have hv := readValue_written depth v fuel
      (some ',' :: ((writtenFields l depth (f :: rest)).map some ++ tail))
      (by omega) (marks (by decide) _).2
    have hstep := readFields_step l depth k hv
    rw [next_comma (by decide), hrest] at hstep
    simp only [writtenFields, List.map_cons, List.map_append, List.append_assoc,
      List.cons_append] at hstep ⊢
    exact hstep

end

/-! ## 4. Whole documents -/

/-- The fuel of a document is two for each of its characters, and two more. -/
theorem read_written (depth : Nat) (v : Json) :
    Document.read ((v.written l depth).map some) = ⟨v.node, true⟩ := by
  have hread := readValue_written l depth v (2 * (v.written l depth).length + 2) [] (by omega)
    trivial
  rw [List.append_nil] at hread
  rw [Document.read, List.length_map, hread]
  rfl

/-- **Compact text is read as the value it was written for.** -/
theorem read_compact (v : Json) : Document.read (.ofText v.compact) = ⟨v.node, true⟩ := by
  rw [Source.ofText, compact, String.toList_ofList, compactChars_eq 0]
  exact read_written .tight 0 v

/-- **Pretty text is read as the value it was written for.** -/
theorem read_pretty (v : Json) : Document.read (.ofText v.pretty) = ⟨v.node, true⟩ := by
  rw [Source.ofText, pretty, String.toList_ofList, prettyChars_eq 0]
  exact read_written .lines 0 v

end Json

end RegionAtlas
