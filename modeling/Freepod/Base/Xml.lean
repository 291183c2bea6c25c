import Mathlib.Data.List.Basic

/-!
# Reading XML

An XML 1.0 processor over characters, for documents of elements without attributes, character data
and the five predefined references.  It refuses a document with a character that XML cannot carry,
and rewrites line ends before it reads.

* `normalizeLines`: a carriage return, with or without a line feed after it, is a line feed.
* `read`: the element of a well-formed document.
* `run_escape`: escaped text is read back, up to line ends.
* `read_eq_none_of_mem`: one character that XML cannot carry spoils the document.
-/

namespace Freepod.Base.Xml

/-- `Char` of XML 1.0 -/
def isXmlChar (c : Char) : Bool :=
  let n := c.toNat
  n == 9 || n == 10 || n == 13 || (decide (32 ≤ n) && decide (n ≤ 0xD7FF)) ||
    (decide (0xE000 ≤ n) && decide (n ≤ 0xFFFD)) || decide (0x10000 ≤ n)

/-- line-end handling -/
def normalizeLines : List Char → List Char
  | [] => []
  | '\r' :: '\n' :: l => '\n' :: normalizeLines l
  | '\r' :: l => '\n' :: normalizeLines l
  | c :: l => c :: normalizeLines l

inductive Node where
  | text (s : List Char)
  | element (name : List Char) (children : List Node)

namespace Node

/-- the child elements of this name -/
def named (name : List Char) : Node → List (List Node)
  | text _ => []
  | element _ children => children.filterMap fun c =>
    match c with
    | element n children => if n = name then some children else none
    | text _ => none

/-- the character data among the children of an element -/
def textOf (children : List Node) : List Char :=
  children.flatMap fun c =>
    match c with
    | text s => s
    | element .. => []

end Node

/-- what the reader is inside of -/
inductive Mode where
  | content
  | tag (read : List Char)
  | reference (read : List Char)

/-- the open elements, innermost first, with their children so far, both latest first; the
character data since the last tag, latest first; and the document's element, once closed -/
structure Reader where
  mode : Mode
  stack : List (List Char × List Node)
  pending : List Char
  brackets : Nat
  root : Option Node

def Reader.start : Reader := ⟨.content, [], [], 0, none⟩

/-- `amp`, `lt`, `gt`, `quot` and `apos` -/
def predefined (name : List Char) : Option Char :=
  if name = "amp".toList then some '&'
  else if name = "lt".toList then some '<'
  else if name = "gt".toList then some '>'
  else if name = "quot".toList then some '\x22'
  else if name = "apos".toList then some '\''
  else none

/-- a name of letters -/
def isName (name : List Char) : Bool := !name.isEmpty && name.all Char.isAlpha

def isSpace (c : Char) : Bool := c == ' ' || c == '\t' || c == '\n' || c == '\r'

/-- the pending character data becomes a child of the innermost element -/
def Reader.flush (r : Reader) : Reader :=
  match r.stack with
  | [] => { r with pending := [], brackets := 0 }
  | (name, children) :: stack =>
    { r with
      stack := (name, if r.pending = [] then children else .text r.pending.reverse :: children) :: stack
      pending := []
      brackets := 0 }

/-- a whole tag was read -/
def Reader.closeTag (r : Reader) (tag : List Char) : Option Reader :=
  match tag with
  | '/' :: name =>
    match r.stack with
    | [] => none
    | (opened, children) :: stack =>
      if opened = name then
        match stack with
        | [] =>
          some { r with mode := .content, stack := [], root := some (.element name children.reverse) }
        | (outer, siblings) :: stack =>
          some { r with
            mode := .content
            stack := (outer, .element name children.reverse :: siblings) :: stack }
      else none
  | name =>
    if isName name = true ∧ (r.stack ≠ [] ∨ r.root.isNone = true) then
      some { r with mode := .content, stack := (name, []) :: r.stack }
    else none

/-- one character; nothing once the document is not well-formed -/
def Reader.step (r : Reader) (c : Char) : Option Reader :=
  match r.mode with
  | .content =>
    if c = '<' then some { r.flush with mode := .tag [] }
    else if r.stack = [] then if isSpace c then some r else none
    else if c = '&' then some { r with mode := .reference [], brackets := 0 }
    else if c = ']' then some { r with pending := c :: r.pending, brackets := r.brackets + 1 }
    else if c = '>' ∧ 2 ≤ r.brackets then none
    else some { r with pending := c :: r.pending, brackets := 0 }
  | .tag read =>
    if c = '>' then r.closeTag read.reverse else some { r with mode := .tag (c :: read) }
  | .reference read =>
    if c = ';' then
      (predefined read.reverse).map fun x => { r with mode := .content, pending := x :: r.pending }
    else some { r with mode := .reference (c :: read) }

def Reader.run (r : Reader) (l : List Char) : Option Reader := l.foldlM Reader.step r

/-- the element of a document whose elements are all closed -/
def Reader.finish (r : Reader) : Option Node :=
  match r.mode, r.stack with
  | .content, [] => r.root
  | _, _ => none

/-- **the document's element**, when the document is well-formed -/
def read (document : List Char) : Option Node :=
  if document.all isXmlChar then
    ((Reader.start.run (normalizeLines document)).bind Reader.finish)
  else none

theorem read_eq_none_of_mem {document : List Char} {c : Char} (hc : c ∈ document)
    (h : isXmlChar c = false) : read document = none := by
  rw [read, if_neg]
  intro hall
  rw [List.all_eq_true] at hall
  rw [hall c hc] at h
  cases h

/-! ## Line ends -/

theorem normalizeLines_cons {c : Char} {l : List Char} (h : c ≠ '\r') :
    normalizeLines (c :: l) = c :: normalizeLines l := by
  rw [normalizeLines]
  · intro l' hc
    exact absurd hc h
  · intro hc
    exact absurd hc h

/-- nothing is joined over a character that ends no line -/
theorem normalizeLines_append {l : List Char} {c : Char} (m : List Char) (h : c ≠ '\n') :
    normalizeLines (l ++ c :: m) = normalizeLines l ++ normalizeLines (c :: m) := by
  induction l using normalizeLines.induct with
  | case1 => rfl
  | case2 l ih => simp only [List.cons_append, normalizeLines, ih]
  | case3 l hl ih =>
    rw [List.cons_append, normalizeLines, normalizeLines, ih]
    · rfl
    · exact hl
    · intro l' heq
      cases l with
      | nil => exact h (List.cons.inj heq).1
      | cons x l =>
        rw [List.cons_append] at heq
        exact hl l (by rw [(List.cons.inj heq).1])
  | case4 x l h1 h2 ih =>
    have hx : x ≠ '\r' := h2
    rw [List.cons_append, normalizeLines_cons hx, normalizeLines_cons hx, ih, List.cons_append]

theorem normalizeLines_append_left {a : List Char} (h : '\r' ∉ a) (m : List Char) :
    normalizeLines (a ++ m) = a ++ normalizeLines m := by
  induction a with
  | nil => rfl
  | cons c a ih =>
    rw [List.mem_cons, not_or] at h
    rw [List.cons_append, normalizeLines_cons (Ne.symm h.1), ih h.2, List.cons_append]

theorem notMem_normalizeLines (l : List Char) : '\r' ∉ normalizeLines l := by
  induction l using normalizeLines.induct with
  | case1 => exact List.not_mem_nil
  | case2 l ih => simpa [normalizeLines] using ih
  | case3 l hl ih =>
    rw [normalizeLines]
    · simpa using ih
    · exact hl
  | case4 x l h1 h2 ih =>
    have hx : x ≠ '\r' := h2
    rw [normalizeLines_cons hx, List.mem_cons]
    rintro (heq | hmem)
    · exact hx heq.symm
    · exact ih hmem

/-- **a text without carriage returns alone is read as it is** -/
theorem normalizeLines_eq_self {l : List Char} : normalizeLines l = l ↔ '\r' ∉ l := by
  constructor
  · intro h
    rw [← h]
    exact notMem_normalizeLines l
  · intro h
    induction l with
    | nil => rfl
    | cons c l ih =>
      rw [List.mem_cons, not_or] at h
      rw [normalizeLines_cons (Ne.symm h.1), ih h.2]

/-! ## Escaped text -/

/-- a character as the predefined references write it -/
def escapeChar (c : Char) : List Char :=
  if c = '&' then "&amp;".toList
  else if c = '<' then "&lt;".toList
  else if c = '>' then "&gt;".toList
  else if c = '\x22' then "&quot;".toList
  else if c = '\'' then "&apos;".toList
  else [c]

def escape (l : List Char) : List Char := l.flatMap escapeChar

theorem escapeChar_of_ne {c : Char} (h1 : c ≠ '&') (h2 : c ≠ '<') (h3 : c ≠ '>')
    (h4 : c ≠ '\x22') (h5 : c ≠ '\'') : escapeChar c = [c] := by
  rw [escapeChar, if_neg h1, if_neg h2, if_neg h3, if_neg h4, if_neg h5]

/-- what begins or holds a line end once escaped did so before -/
theorem escapeChar_lineEnd {c x : Char} (hx : x = '\n' ∨ x = '\r') :
    (x ∈ escapeChar c → c = x) ∧ ((escapeChar c).head? = some x → c = x) := by
  have hmem : x ∈ escapeChar c → c = x := by
    unfold escapeChar
    intro h
    obtain rfl | rfl := hx
    · split_ifs at h
      · exact absurd h (by decide)
      · exact absurd h (by decide)
      · exact absurd h (by decide)
      · exact absurd h (by decide)
      · exact absurd h (by decide)
      · exact (List.mem_singleton.1 h).symm
    · split_ifs at h
      · exact absurd h (by decide)
      · exact absurd h (by decide)
      · exact absurd h (by decide)
      · exact absurd h (by decide)
      · exact absurd h (by decide)
      · exact (List.mem_singleton.1 h).symm
  exact ⟨hmem, fun h => hmem (List.mem_of_mem_head? h)⟩

theorem escapeChar_ne_nil (c : Char) : escapeChar c ≠ [] := by
  unfold escapeChar
  split_ifs
  all_goals simp

theorem head_escape {l m : List Char} {x : Char} (hx : x = '\n' ∨ x = '\r')
    (h : escape l = x :: m) : ∃ l', l = x :: l' := by
  cases l with
  | nil => cases h
  | cons c l =>
    rw [escape, List.flatMap_cons] at h
    have hhead : (escapeChar c).head? = some x := by
      rw [← List.head?_append_of_ne_nil _ (escapeChar_ne_nil c), h]
      rfl
    rw [(escapeChar_lineEnd hx).2 hhead]
    exact ⟨l, rfl⟩

theorem escape_cons (c : Char) (l : List Char) : escape (c :: l) = escapeChar c ++ escape l :=
  List.flatMap_cons

/-- **line ends are rewritten alike before and after the escapes** -/
theorem normalizeLines_escape (l : List Char) :
    normalizeLines (escape l) = escape (normalizeLines l) := by
  induction l using normalizeLines.induct with
  | case1 => rfl
  | case2 l ih =>
    show normalizeLines ('\r' :: '\n' :: escape l) = escape ('\n' :: normalizeLines l)
    rw [normalizeLines, ih]
    rfl
  | case3 l hl ih =>
    rw [normalizeLines]
    · show normalizeLines ('\r' :: escape l) = '\n' :: escape (normalizeLines l)
      rw [← ih, normalizeLines]
      intro m hm
      obtain ⟨l', hl'⟩ := head_escape (.inl rfl) hm
      exact hl l' hl'
    · exact hl
  | case4 c l h1 h2 ih =>
    have hc : c ≠ '\r' := h2
    rw [normalizeLines_cons hc, escape_cons, escape_cons, ← ih]
    exact normalizeLines_append_left (fun h => hc ((escapeChar_lineEnd (.inr rfl)).1 h)) _

/-! ## The reader on escaped text -/

theorem run_append (r : Reader) (l m : List Char) :
    r.run (l ++ m) = (r.run l).bind fun r => r.run m := by
  rw [Reader.run, List.foldlM_append]
  rfl

theorem run_escapeChar {stack : List (List Char × List Node)} (hstack : stack ≠ [])
    (pending : List Char) (brackets : Nat) (root : Option Node) (c : Char) :
    ∃ b, Reader.run ⟨.content, stack, pending, brackets, root⟩ (escapeChar c) =
      some ⟨.content, stack, c :: pending, b, root⟩ := by
  obtain ⟨e, stack, rfl⟩ := List.exists_cons_of_ne_nil hstack
  by_cases h1 : c = '&'
  · subst h1
    exact ⟨0, rfl⟩
  by_cases h2 : c = '<'
  · subst h2
    exact ⟨0, rfl⟩
  by_cases h3 : c = '>'
  · subst h3
    exact ⟨0, rfl⟩
  by_cases h4 : c = '\x22'
  · subst h4
    exact ⟨0, rfl⟩
  by_cases h5 : c = '\''
  · subst h5
    exact ⟨0, rfl⟩
  have hrun : ∀ r : Reader, r.run [c] = r.step c := fun r => by simp [Reader.run]
  rw [escapeChar_of_ne h1 h2 h3 h4 h5, hrun]
  by_cases hb : c = ']'
  · exact ⟨brackets + 1, by simp [Reader.step, hb]⟩
  · exact ⟨0, by simp [Reader.step, h1, h2, h3, hb]⟩

/-- **escaped text inside an element is read as the text** -/
theorem run_escape {stack : List (List Char × List Node)} (hstack : stack ≠ [])
    (pending : List Char) (brackets : Nat) (root : Option Node) (l : List Char) :
    ∃ b, Reader.run ⟨.content, stack, pending, brackets, root⟩ (escape l) =
      some ⟨.content, stack, l.reverse ++ pending, b, root⟩ := by
  induction l generalizing pending brackets with
  | nil => exact ⟨brackets, rfl⟩
  | cons c l ih =>
    obtain ⟨b, hb⟩ := run_escapeChar hstack pending brackets root c
    obtain ⟨b', hb'⟩ := ih (c :: pending) b
    refine ⟨b', ?_⟩
    rw [escape_cons, run_append, hb, Option.bind_some, hb', List.reverse_cons, List.append_assoc]
    rfl

/-! ## The reader on tags -/

/-- a tag as it is written -/
def tag (name : List Char) : List Char := '<' :: (name ++ ['>'])

theorem run_cons (r : Reader) (c : Char) (l : List Char) :
    r.run (c :: l) = (r.step c).bind fun r => r.run l := by
  rw [Reader.run, List.foldlM_cons]
  rfl

/-- a tag is read up to its end -/
theorem run_tag {r : Reader} (hmode : r.mode = .content) {name : List Char} (h : '>' ∉ name) :
    r.run (tag name) = Reader.closeTag { r.flush with mode := .tag name.reverse } name := by
  have hname : ∀ (read : List Char) (q : Reader), q.mode = .tag read →
      q.run (name ++ ['>']) =
        Reader.closeTag { q with mode := .tag (name.reverse ++ read) } (read.reverse ++ name) := by
    intro read q hq
    induction name generalizing read q with
    | nil =>
      rw [List.nil_append, run_cons]
      simp only [Reader.step, hq, if_true, List.append_nil, List.reverse_nil, List.nil_append]
      have hself : { q with mode := .tag read } = q := by
        rw [← hq]
      rw [hself]
      cases q.closeTag read.reverse with
      | none => rfl
      | some r => rfl
    | cons c name ih =>
      rw [List.mem_cons, not_or] at h
      rw [List.cons_append, run_cons]
      simp only [Reader.step, hq, if_neg (Ne.symm h.1), Option.bind_some]
      rw [ih h.2 (c :: read) _ rfl]
      simp
  rw [tag, run_cons]
  simp only [Reader.step, hmode, if_true, Option.bind_some]
  rw [hname [] _ rfl, List.append_nil, List.reverse_nil, List.nil_append]

theorem notMem_of_isName {name : List Char} (h : isName name = true) {c : Char}
    (hc : c.isAlpha = false) : c ∉ name := by
  rw [isName, Bool.and_eq_true, List.all_eq_true] at h
  intro hmem
  rw [h.2 c hmem] at hc
  cases hc

/-- the children of an element with the pending character data -/
def settled (pending : List Char) (children : List Node) : List Node :=
  if pending = [] then children else .text pending.reverse :: children

/-- **a start tag inside an element** -/
theorem run_open {outer name : List Char} (hname : isName name = true) (children : List Node)
    (stack : List (List Char × List Node)) (pending : List Char) (b : Nat) (root : Option Node) :
    Reader.run ⟨.content, (outer, children) :: stack, pending, b, root⟩ (tag name) =
      some ⟨.content, (name, []) :: (outer, settled pending children) :: stack, [], 0, root⟩ := by
  rw [run_tag rfl (notMem_of_isName hname (by decide))]
  match name, hname with
  | c :: name, hname =>
    have hslash : c ≠ '/' := by
      rintro rfl
      exact notMem_of_isName hname (c := '/') (by decide) List.mem_cons_self
    rw [Reader.closeTag]
    · rw [if_pos ⟨hname, .inl (List.cons_ne_nil _ _)⟩]
      rfl
    · intro name' heq
      exact hslash (List.cons.inj heq).1

/-- **the document's start tag** -/
theorem run_open_root {name : List Char} (hname : isName name = true) :
    Reader.start.run (tag name) = some ⟨.content, [(name, [])], [], 0, none⟩ := by
  rw [run_tag rfl (notMem_of_isName hname (by decide))]
  match name, hname with
  | c :: name, hname =>
    have hslash : c ≠ '/' := by
      rintro rfl
      exact notMem_of_isName hname (c := '/') (by decide) List.mem_cons_self
    rw [Reader.closeTag]
    · rw [if_pos ⟨hname, .inr rfl⟩]
      rfl
    · intro name' heq
      exact hslash (List.cons.inj heq).1

/-- **an end tag inside an element** -/
theorem run_close {outer name : List Char} (hname : isName name = true)
    (children siblings : List Node) (stack : List (List Char × List Node)) (pending : List Char)
    (b : Nat) (root : Option Node) :
    Reader.run ⟨.content, (name, children) :: (outer, siblings) :: stack, pending, b, root⟩
        (tag ('/' :: name)) =
      some ⟨.content, (outer, .element name (settled pending children).reverse :: siblings) :: stack,
        [], 0, root⟩ := by
  have hend : '>' ∉ '/' :: name := by
    rw [List.mem_cons, not_or]
    exact ⟨by decide, notMem_of_isName hname (by decide)⟩
  rw [run_tag rfl hend]
  simp only [Reader.closeTag, Reader.flush, settled, if_true]

/-- **the document's end tag** -/
theorem run_close_root {name : List Char} (hname : isName name = true) (children : List Node)
    (pending : List Char) (b : Nat) (root : Option Node) :
    Reader.run ⟨.content, [(name, children)], pending, b, root⟩ (tag ('/' :: name)) =
      some ⟨.content, [], [], 0, some (.element name (settled pending children).reverse)⟩ := by
  have hend : '>' ∉ '/' :: name := by
    rw [List.mem_cons, not_or]
    exact ⟨by decide, notMem_of_isName hname (by decide)⟩
  rw [run_tag rfl hend]
  simp only [Reader.closeTag, Reader.flush, settled, if_true]

/-- the characters of an escaped text -/
theorem mem_escape {l : List Char} {x : Char} (h : x ∈ escape l) :
    x ∈ l ∨ x.isAlpha = true ∨ x = '&' ∨ x = ';' := by
  rw [escape, List.mem_flatMap] at h
  obtain ⟨c, hc, hx⟩ := h
  have hliteral : ∀ s : List Char, s.all (fun x => x.isAlpha || x == '&' || x == ';') = true →
      x ∈ s → x ∈ l ∨ x.isAlpha = true ∨ x = '&' ∨ x = ';' := by
    intro s hs hmem
    rw [List.all_eq_true] at hs
    have := hs x hmem
    simp only [Bool.or_eq_true, beq_iff_eq, or_assoc] at this
    exact .inr this
  unfold escapeChar at hx
  split_ifs at hx
  · exact hliteral _ (by decide) hx
  · exact hliteral _ (by decide) hx
  · exact hliteral _ (by decide) hx
  · exact hliteral _ (by decide) hx
  · exact hliteral _ (by decide) hx
  · rw [List.mem_singleton.1 hx]
    exact .inl hc

/-- a character that is not escaped stays -/
theorem mem_escape_of_mem {l : List Char} {x : Char} (h : x ∈ l) (hx : isXmlChar x = false) :
    x ∈ escape l := by
  have hself : escapeChar x = [x] := by
    refine escapeChar_of_ne ?_ ?_ ?_ ?_ ?_
    all_goals
      rintro rfl
      exact absurd hx (by decide)
  rw [escape, List.mem_flatMap]
  exact ⟨x, h, by rw [hself]; exact List.mem_singleton_self x⟩

theorem isXmlChar_of_isAlpha {c : Char} (h : c.isAlpha = true) : isXmlChar c = true := by
  unfold Char.isAlpha Char.isUpper Char.isLower at h
  simp only [Bool.or_eq_true, Bool.and_eq_true, decide_eq_true_eq, ge_iff_le,
    UInt32.le_iff_toNat_le] at h
  have hn : c.toNat = c.val.toNat := rfl
  have hz : 'Z'.val.toNat = 90 := rfl
  have hz' : 'z'.val.toNat = 122 := rfl
  have ha : 'A'.val.toNat = 65 := rfl
  have ha' : 'a'.val.toNat = 97 := rfl
  simp only [isXmlChar, Bool.or_eq_true, Bool.and_eq_true, decide_eq_true_eq, beq_iff_eq]
  omega

theorem mem_tag {name : List Char} {c : Char} : c ∈ tag name ↔ c = '<' ∨ c ∈ name ∨ c = '>' := by
  rw [tag, List.mem_cons, List.mem_append, List.mem_singleton]

end Freepod.Base.Xml
