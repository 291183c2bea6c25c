import Mathlib.Data.List.Dedup
import Freepod.Cli.Bucket

/-!
# What a batch delete deletes

The keys go out as the text of an XML document.  An XML processor reads a carriage return as a line
feed, a document with a control character is refused, and a surrogate cannot be sent at all.

* `read_body`: what the store reads from the body, for keys of characters XML can carry.
* `batch_deletes_named`: the keys read are the keys given, and a batch that cannot be carried is
  reported kept and not counted, iff no key holds a surrogate and either every character can be
  carried and none is a carriage return, or one cannot and no key is repeated.
-/

namespace Freepod.Cli
open Freepod.Base

variable {store : ObjectStore} {keys : List Str}

/-! ## Code points -/

@[simp] theorem toChar?_ofChar (c : Char) : (CodePoint.ofChar c).toChar? = some c := by
  have hv : (CodePoint.ofChar c).val.isValidChar := c.valid
  rw [CodePoint.toChar?, if_pos hv]
  exact congrArg some (Char.ofNat_toNat c)

theorem ofChar_inj {a b : Char} : CodePoint.ofChar a = CodePoint.ofChar b ↔ a = b := by
  constructor
  · intro h
    have h' := congrArg CodePoint.toChar? h
    rw [toChar?_ofChar, toChar?_ofChar] at h'
    exact Option.some.inj h'
  · rintro rfl
    rfl

theorem toChar?_eq_some {p : CodePoint} {c : Char} :
    p.toChar? = some c ↔ p = CodePoint.ofChar c := by
  constructor
  · intro h
    rw [CodePoint.toChar?] at h
    split at h
    · rename_i hv
      rw [← Option.some.inj h]
      refine Fin.ext ?_
      show p.val = (Char.ofNat p.val).toNat
      rw [Char.ofNat, dif_pos hv]
      rfl
    · cases h
  · rintro rfl
    exact toChar?_ofChar c

/-- **what can be encoded is a text of characters** -/
theorem encode_eq_some {s : Str} {l : List Char} :
    s.encode = some l ↔ s = l.map CodePoint.ofChar := by
  rw [Str.encode]
  induction s generalizing l with
  | nil => simp [eq_comm]
  | cons p s ih =>
    simp only [List.mapM_cons, Option.pure_def, Option.bind_eq_bind, Option.bind_eq_some_iff,
      toChar?_eq_some, ih, Option.some.injEq]
    constructor
    · rintro ⟨c, rfl, m, rfl, rfl⟩
      rfl
    · intro h
      cases l with
      | nil => cases h
      | cons c l =>
        obtain ⟨h1, h2⟩ := List.cons.inj h
        exact ⟨c, h1, l, h2, rfl⟩

/-! ## The body -/

theorem replace_map {c : Char} {s : String} (l : List Char) :
    Str.replace c s (l.map CodePoint.ofChar) =
      (l.flatMap fun x => if x = c then s.toList else [x]).map CodePoint.ofChar := by
  induction l with
  | nil => rfl
  | cons x l ih =>
    rw [Str.replace] at ih ⊢
    rw [List.map_cons, List.flatMap_cons, List.flatMap_cons, List.map_append, ih]
    congr 1
    by_cases hx : x = c
    · rw [if_pos (ofChar_inj.2 hx), if_pos hx, Str.lit]
    · rw [if_neg (mt ofChar_inj.1 hx), if_neg hx, List.map_singleton]

/-- the five replacements are one pass of escapes -/
theorem xmlEscape_map (l : List Char) :
    xmlEscape (l.map CodePoint.ofChar) = (Xml.escape l).map CodePoint.ofChar := by
  simp only [xmlEscape, replace_map]
  congr 1
  simp only [List.flatMap_assoc]
  unfold Xml.escape
  refine List.flatMap_congr fun c _ => ?_
  by_cases h1 : c = '&'
  · subst h1
    rfl
  by_cases h2 : c = '<'
  · subst h2
    rfl
  by_cases h3 : c = '>'
  · subst h3
    rfl
  by_cases h4 : c = '\x22'
  · subst h4
    rfl
  by_cases h5 : c = '\''
  · subst h5
    rfl
  rw [Xml.escapeChar_of_ne h1 h2 h3 h4 h5, if_neg h1]
  simp only [List.flatMap_cons, List.flatMap_nil, List.append_nil, if_neg h2, if_neg h3, if_neg h4,
    if_neg h5]

/-- the characters of an `Object` element -/
def objectChars (key : List Char) : List Char :=
  Xml.tag "Object".toList ++ Xml.tag "Key".toList ++ Xml.escape key ++
    (Xml.tag ('/' :: "Key".toList) ++ Xml.tag ('/' :: "Object".toList))

/-- what stands before the objects -/
def quietChars : List Char :=
  Xml.tag "Delete".toList ++ Xml.tag "Quiet".toList ++ Xml.escape "true".toList ++
    Xml.tag ('/' :: "Quiet".toList)

/-- the characters of the body -/
def bodyChars (keys : List (List Char)) : List Char :=
  quietChars ++ keys.flatMap objectChars ++ Xml.tag ('/' :: "Delete".toList)

theorem objectXml_map (key : List Char) :
    objectXml (key.map CodePoint.ofChar) = (objectChars key).map CodePoint.ofChar := by
  have hopen : "<Object><Key>".toList = Xml.tag "Object".toList ++ Xml.tag "Key".toList := by decide
  have hclose : "</Key></Object>".toList = Xml.tag ('/' :: "Key".toList) ++ Xml.tag ('/' :: "Object".toList) := by
    decide
  rw [objectXml, objectChars, xmlEscape_map, Str.lit, Str.lit, hopen, hclose]
  simp only [List.map_append]

theorem deleteXml_map (keys : List (List Char)) :
    deleteXml (keys.map (List.map CodePoint.ofChar)) = (bodyChars keys).map CodePoint.ofChar := by
  have hopen : "<Delete><Quiet>true</Quiet>".toList = quietChars := by decide
  have hclose : "</Delete>".toList = Xml.tag ('/' :: "Delete".toList) := by decide
  rw [deleteXml, bodyChars, Str.lit, Str.lit, hopen, hclose, List.map_append, List.map_append,
    List.map_flatMap, List.flatMap_map]
  simp only [objectXml_map]

theorem encode_deleteXml (keys : List (List Char)) :
    Str.encode (deleteXml (keys.map (List.map CodePoint.ofChar))) = some (bodyChars keys) := by
  rw [encode_eq_some]
  exact deleteXml_map keys

/-! ## What the store reads -/

/-- the `Key` texts of a `Delete` document -/
def keyTexts (document : Xml.Node) : List Str :=
  (document.named "Object".toList).flatMap fun object =>
    ((Xml.Node.element [] object).named "Key".toList).map fun key =>
      (Xml.Node.textOf key).map CodePoint.ofChar

/-- an `Object` element as it is read -/
def objectNode (key : List Char) : Xml.Node :=
  .element "Object".toList [.element "Key".toList (Xml.settled key.reverse []).reverse]

def quietNode : Xml.Node := .element "Quiet".toList [.text "true".toList]

def documentNode (keys : List (List Char)) : Xml.Node :=
  .element "Delete".toList (quietNode :: keys.map objectNode)

theorem textOf_settled (s : List Char) : Xml.Node.textOf (Xml.settled s.reverse []).reverse = s := by
  by_cases h : s = []
  · rw [h]
    rfl
  · rw [Xml.settled, if_neg (by simpa using h), List.reverse_reverse]
    exact List.append_nil s

theorem keyTexts_documentNode (keys : List (List Char)) :
    keyTexts (documentNode keys) = keys.map (List.map CodePoint.ofChar) := by
  have hnames : ∀ children : List Xml.Node, (Xml.Node.element "Delete".toList
      (quietNode :: children)).named "Object".toList =
        (Xml.Node.element "Delete".toList children).named "Object".toList := by
    intro children
    rw [Xml.Node.named, List.filterMap_cons]
    rfl
  rw [keyTexts, documentNode, hnames]
  induction keys with
  | nil => rfl
  | cons key keys ih =>
    rw [Xml.Node.named] at ih ⊢
    rw [List.map_cons, List.filterMap_cons]
    simp only [objectNode, if_true]
    rw [List.flatMap_cons, ih, List.map_cons, Xml.Node.named, List.filterMap_cons]
    simp only [if_true, List.filterMap_nil, List.map_cons, List.map_nil, textOf_settled]
    rfl

/-! ## The text of the body -/

theorem normalizeLines_objectChars (key rest : List Char) :
    Xml.normalizeLines (objectChars key ++ rest) =
      objectChars (Xml.normalizeLines key) ++ Xml.normalizeLines rest := by
  have hopen : '\r' ∉ Xml.tag "Object".toList ++ Xml.tag "Key".toList := by decide
  have hclose : '\r' ∉ Xml.tag ('/' :: "Key".toList) ++ Xml.tag ('/' :: "Object".toList) := by
    decide
  -- the text ends where the end tag's bracket stands
  obtain ⟨tail, htail⟩ : ∃ tail, Xml.tag ('/' :: "Key".toList) ++ Xml.tag ('/' :: "Object".toList) =
      '<' :: tail := ⟨_, rfl⟩
  rw [objectChars, objectChars, List.append_assoc, List.append_assoc,
    Xml.normalizeLines_append_left hopen, ← Xml.normalizeLines_escape, htail, List.cons_append,
    Xml.normalizeLines_append _ (by decide), ← List.cons_append, ← htail,
    Xml.normalizeLines_append_left hclose]
  simp only [List.append_assoc]

theorem normalizeLines_bodyChars (keys : List (List Char)) :
    Xml.normalizeLines (bodyChars keys) = bodyChars (keys.map Xml.normalizeLines) := by
  have hobjects : ∀ rest : List Char, Xml.normalizeLines (keys.flatMap objectChars ++ rest) =
      (keys.map Xml.normalizeLines).flatMap objectChars ++ Xml.normalizeLines rest := by
    intro rest
    induction keys with
    | nil => rfl
    | cons key keys ih =>
      rw [List.flatMap_cons, List.map_cons, List.flatMap_cons, List.append_assoc,
        normalizeLines_objectChars, ih, List.append_assoc]
  have hquiet : '\r' ∉ quietChars := by decide
  have hend : '\r' ∉ Xml.tag ('/' :: "Delete".toList) := by decide
  rw [bodyChars, List.append_assoc, Xml.normalizeLines_append_left hquiet, hobjects,
    Xml.normalizeLines_eq_self.2 hend, bodyChars, List.append_assoc]

/-- the body holds the keys' characters, and others that XML can carry -/
theorem mem_bodyChars {keys : List (List Char)} {c : Char} (h : c ∈ bodyChars keys)
    (hc : Xml.isXmlChar c = false) : ∃ key ∈ keys, c ∈ key := by
  have htag : ∀ {name : List Char}, name.all Xml.isXmlChar = true → c ∉ Xml.tag name := by
    intro name hname hmem
    rw [List.all_eq_true] at hname
    obtain rfl | hmem | rfl := Xml.mem_tag.1 hmem
    · exact absurd hc (by decide)
    · rw [hname c hmem] at hc
      cases hc
    · exact absurd hc (by decide)
  have hescape : ∀ {l : List Char}, c ∈ Xml.escape l → c ∈ l := by
    intro l hmem
    obtain hmem | halpha | rfl | rfl := Xml.mem_escape hmem
    · exact hmem
    · rw [Xml.isXmlChar_of_isAlpha halpha] at hc
      cases hc
    · exact absurd hc (by decide)
    · exact absurd hc (by decide)
  have hquiet : c ∉ quietChars := by
    intro hmem
    rw [quietChars, List.mem_append, List.mem_append, List.mem_append] at hmem
    obtain ((hmem | hmem) | hmem) | hmem := hmem
    · exact htag (by decide) hmem
    · exact htag (by decide) hmem
    · exact absurd (hescape hmem) (by
        intro htrue
        rw [Xml.isXmlChar_of_isAlpha (List.all_eq_true.1 (by decide : "true".toList.all Char.isAlpha)
          c htrue)] at hc
        cases hc)
    · exact htag (by decide) hmem
  rw [bodyChars, List.mem_append, List.mem_append, List.mem_flatMap] at h
  obtain (hmem | ⟨key, hkey, hmem⟩) | hmem := h
  · exact absurd hmem hquiet
  · refine ⟨key, hkey, ?_⟩
    rw [objectChars, List.mem_append, List.mem_append, List.mem_append, List.mem_append] at hmem
    obtain ((hmem | hmem) | hmem) | hmem | hmem := hmem
    · exact absurd hmem (htag (by decide))
    · exact absurd hmem (htag (by decide))
    · exact hescape hmem
    · exact absurd hmem (htag (by decide))
    · exact absurd hmem (htag (by decide))
  · exact absurd hmem (htag (by decide))

/-! ## The reader on the body -/

/-- the reader inside the `Delete` element, between two of its children -/
def between (read : List Xml.Node) : Xml.Reader :=
  ⟨.content, [("Delete".toList, read)], [], 0, none⟩

/-- an element with a text, inside another -/
theorem run_element {outer name : List Char} (hname : Xml.isName name = true) (text : List Char)
    (siblings : List Xml.Node) (stack : List (List Char × List Xml.Node)) (b : Nat) :
    Xml.Reader.run ⟨.content, (outer, siblings) :: stack, [], b, none⟩
        (Xml.tag name ++ Xml.escape text ++ Xml.tag ('/' :: name)) =
      some ⟨.content,
        (outer, .element name (Xml.settled text.reverse []).reverse :: siblings) :: stack, [], 0,
        none⟩ := by
  obtain ⟨b', hb⟩ := Xml.run_escape
    (List.cons_ne_nil (name, ([] : List Xml.Node)) ((outer, siblings) :: stack)) [] 0 none text
  rw [Xml.run_append, Xml.run_append, Xml.run_open hname, Option.bind_some]
  show (Option.bind (Xml.Reader.run ⟨.content, (name, []) :: (outer, siblings) :: stack, [], 0,
    none⟩ (Xml.escape text)) _) = _
  rw [hb, Option.bind_some, List.append_nil, Xml.run_close hname]

theorem run_objectChars (read : List Xml.Node) (key : List Char) :
    (between read).run (objectChars key) = some (between (objectNode key :: read)) := by
  have hassoc : objectChars key = Xml.tag "Object".toList ++
      (Xml.tag "Key".toList ++ Xml.escape key ++ Xml.tag ('/' :: "Key".toList)) ++
        Xml.tag ('/' :: "Object".toList) := by
    simp only [objectChars, List.append_assoc]
  rw [hassoc, Xml.run_append, Xml.run_append, between, Xml.run_open (by decide), Option.bind_some,
    run_element (by decide), Option.bind_some, Xml.run_close (by decide)]
  rfl

theorem run_objects (read : List Xml.Node) (keys : List (List Char)) :
    (between read).run (keys.flatMap objectChars) =
      some (between ((keys.map objectNode).reverse ++ read)) := by
  induction keys generalizing read with
  | nil => rfl
  | cons key keys ih =>
    rw [List.flatMap_cons, Xml.run_append, run_objectChars, Option.bind_some, ih, List.map_cons,
      List.reverse_cons, List.append_assoc]
    rfl

theorem run_bodyChars (keys : List (List Char)) :
    (Xml.Reader.start.run (bodyChars keys)).bind Xml.Reader.finish = some (documentNode keys) := by
  have hquiet : Xml.Reader.start.run quietChars = some (between [quietNode]) := by
    have hassoc : quietChars = Xml.tag "Delete".toList ++ (Xml.tag "Quiet".toList ++
        Xml.escape "true".toList ++ Xml.tag ('/' :: "Quiet".toList)) := by
      simp only [quietChars, List.append_assoc]
    rw [hassoc, Xml.run_append, Xml.run_open_root (by decide), Option.bind_some,
      run_element (by decide)]
    rfl
  rw [bodyChars, Xml.run_append, Xml.run_append, hquiet, Option.bind_some, run_objects,
    Option.bind_some, between, Xml.run_close_root (by decide), Option.bind_some]
  show some (Xml.Node.element "Delete".toList (List.reverse _)) = _
  rw [Xml.settled, if_pos rfl, List.reverse_append, List.reverse_reverse]
  rfl

/-- **the store reads the keys**, with their line ends rewritten -/
theorem read_body {keys : List (List Char)} (h : ∀ key ∈ keys, ∀ c ∈ key, Xml.isXmlChar c = true) :
    Xml.read (bodyChars keys) = some (documentNode (keys.map Xml.normalizeLines)) := by
  rw [Xml.read, if_pos, normalizeLines_bodyChars, run_bodyChars]
  rw [List.all_eq_true]
  intro c hc
  by_contra hno
  rw [Bool.not_eq_true] at hno
  obtain ⟨key, hkey, hmem⟩ := mem_bodyChars hc hno
  rw [h key hkey c hmem] at hno
  cases hno

/-! ## The verdict on a batch -/

/-- a code point that no encoding has -/
def HasSurrogate (keys : List Str) : Prop := ∃ key ∈ keys, ∃ p ∈ key, p.toChar? = none

/-- a character that XML can carry -/
def CodePoint.carried (p : CodePoint) : Bool := p.toChar?.any Xml.isXmlChar

/-- a key holds a character XML cannot carry -/
def HasUncarried (keys : List Str) : Prop := ∃ key ∈ keys, ∃ p ∈ key, p.carried = false

/-- a key holds a carriage return -/
def HasReturn (keys : List Str) : Prop := ∃ key ∈ keys, CodePoint.ofChar '\r' ∈ key

/-- the keys read from the body are the keys given, in order -/
def ReadsBack (keys : List Str) : Prop :=
  ∀ body document, (deleteXml keys).encode = some body → Xml.read body = some document →
    keyTexts document = keys

/-- a batch that cannot be carried is reported kept, every key, and not counted -/
def ReportsKept (store : ObjectStore) (keys : List Str) : Prop :=
  HasUncarried keys → ∀ t, ∃ t', deleteBatch store t keys = .ok t' ∧ t'.deleted = t.deleted ∧
    ∀ key ∈ keys, key ∈ t'.problems.map Prod.fst

/-- a store refuses a body of `delete_many` that is not well-formed -/
def RefusesMalformed (store : ObjectStore) : Prop :=
  ∀ keys body, (deleteXml keys).encode = some body → Xml.read body = none →
    ∃ why, store body = .error why

theorem chars_of_not_hasSurrogate (h : ¬ HasSurrogate keys) :
    ∃ chars : List (List Char), keys = chars.map (List.map CodePoint.ofChar) := by
  induction keys with
  | nil => exact ⟨[], rfl⟩
  | cons key keys ih =>
    obtain ⟨chars, hchars⟩ := ih fun ⟨k, hk, hp⟩ => h ⟨k, List.mem_cons_of_mem _ hk, hp⟩
    have hkey : ∀ p ∈ key, ∃ c, p = CodePoint.ofChar c := by
      intro p hp
      cases hc : p.toChar? with
      | none => exact absurd ⟨key, List.mem_cons_self, p, hp, hc⟩ h
      | some c => exact ⟨c, toChar?_eq_some.1 hc⟩
    obtain ⟨l, hl⟩ : ∃ l : List Char, key = l.map CodePoint.ofChar := by
      clear h ih hchars
      induction key with
      | nil => exact ⟨[], rfl⟩
      | cons p key ih =>
        obtain ⟨c, hc⟩ := hkey p List.mem_cons_self
        obtain ⟨l, hl⟩ := ih fun q hq => hkey q (List.mem_cons_of_mem _ hq)
        exact ⟨c :: l, by rw [hc, hl, List.map_cons]⟩
    exact ⟨l :: chars, by rw [hchars, hl, List.map_cons]⟩

/-- a surrogate stops the request before it is sent -/
theorem encode_of_hasSurrogate (h : HasSurrogate keys) : (deleteXml keys).encode = none := by
  obtain ⟨key, hkey, p, hp, hnone⟩ := h
  have hne : ∀ c, p ≠ CodePoint.ofChar c := by
    rintro c rfl
    rw [toChar?_ofChar] at hnone
    cases hnone
  have hreplace : ∀ {c s} {value : Str}, p ∈ value → p ∈ Str.replace c s value := by
    intro c s value hmem
    rw [Str.replace, List.mem_flatMap]
    exact ⟨p, hmem, by rw [if_neg (hne c)]; exact List.mem_singleton_self p⟩
  have hobject : p ∈ objectXml key := by
    rw [objectXml, List.mem_append, List.mem_append]
    exact .inl (.inr (hreplace (hreplace (hreplace (hreplace (hreplace hp))))))
  have hbody : p ∈ deleteXml keys := by
    rw [deleteXml, List.mem_append, List.mem_append, List.mem_flatMap]
    exact .inl (.inr ⟨key, hkey, hobject⟩)
  cases henc : (deleteXml keys).encode with
  | none => rfl
  | some body =>
    rw [encode_eq_some.1 henc, List.mem_map] at hbody
    obtain ⟨c, -, hc⟩ := hbody
    exact absurd hc.symm (hne c)

/-! ## The tally -/

theorem dict_spec (pairs d : List (Str × Str)) (hd : (d.map Prod.fst).Nodup) :
    let d' := pairs.foldl (fun d p => setKey p.1 p.2 d) d
    (d'.map Prod.fst).Nodup ∧
      ∀ k, k ∈ d'.map Prod.fst ↔ k ∈ d.map Prod.fst ∨ k ∈ pairs.map Prod.fst := by
  induction pairs generalizing d with
  | nil => exact ⟨hd, fun k => by simp⟩
  | cons p pairs ih =>
    obtain ⟨hnodup, hmem⟩ := ih (setKey p.1 p.2 d) (nodup_setKey hd)
    refine ⟨hnodup, fun k => ?_⟩
    rw [List.foldl_cons, hmem, mem_map_fst_setKey, List.map_cons, List.mem_cons]
    tauto

theorem mem_dict {pairs : List (Str × Str)} {k : Str} :
    k ∈ (dict pairs).map Prod.fst ↔ k ∈ pairs.map Prod.fst := by
  rw [dict, (dict_spec pairs [] List.nodup_nil).2]
  simp

/-- no entry is lost iff the keys are distinct -/
theorem length_dict {pairs : List (Str × Str)} :
    (dict pairs).length = pairs.length ↔ (pairs.map Prod.fst).Nodup := by
  have hperm : ((dict pairs).map Prod.fst).Perm (pairs.map Prod.fst).dedup := by
    refine (List.perm_ext_iff_of_nodup (dict_spec pairs [] List.nodup_nil).1
      (List.nodup_dedup _)).2 fun k => ?_
    rw [List.mem_dedup]
    exact mem_dict
  have hlength := hperm.length_eq
  rw [List.length_map] at hlength
  rw [hlength, ← @List.length_map _ _ pairs Prod.fst]
  constructor
  · intro h
    rw [← (List.dedup_sublist _).eq_of_length h]
    exact List.nodup_dedup _
  · intro h
    rw [h.dedup]

/-! ## The halves of the claim -/

theorem hasUncarried_map {chars : List (List Char)} :
    HasUncarried (chars.map (List.map CodePoint.ofChar)) ↔
      ∃ key ∈ chars, ∃ c ∈ key, Xml.isXmlChar c = false := by
  simp only [HasUncarried, List.mem_map, exists_exists_and_eq_and, CodePoint.carried,
    toChar?_ofChar, Option.any_some]

theorem hasReturn_map {chars : List (List Char)} :
    HasReturn (chars.map (List.map CodePoint.ofChar)) ↔ ∃ key ∈ chars, '\r' ∈ key := by
  simp only [HasReturn, List.mem_map, exists_exists_and_eq_and, ofChar_inj, exists_eq_right]

theorem not_hasSurrogate_map (chars : List (List Char)) :
    ¬ HasSurrogate (chars.map (List.map CodePoint.ofChar)) := by
  simp [HasSurrogate]

theorem read_of_hasUncarried {chars : List (List Char)}
    (h : HasUncarried (chars.map (List.map CodePoint.ofChar))) :
    Xml.read (bodyChars chars) = none := by
  obtain ⟨key, hkey, c, hc, hno⟩ := hasUncarried_map.1 h
  refine Xml.read_eq_none_of_mem (c := c) ?_ hno
  have hescape : c ∈ Xml.escape key := Xml.mem_escape_of_mem hc hno
  have hobject : c ∈ objectChars key := by
    rw [objectChars, List.mem_append, List.mem_append]
    exact .inl (.inr hescape)
  rw [bodyChars, List.mem_append, List.mem_append, List.mem_flatMap]
  exact .inl (.inr ⟨key, hkey, hobject⟩)

/-- **read back**, where every character can be carried -/
theorem readsBack_iff {chars : List (List Char)}
    (h : ¬ HasUncarried (chars.map (List.map CodePoint.ofChar))) :
    ReadsBack (chars.map (List.map CodePoint.ofChar)) ↔
      ¬ HasReturn (chars.map (List.map CodePoint.ofChar)) := by
  have hcarried : ∀ key ∈ chars, ∀ c ∈ key, Xml.isXmlChar c = true := by
    intro key hkey c hc
    by_contra hno
    exact h (hasUncarried_map.2 ⟨key, hkey, c, hc, by simpa using hno⟩)
  have hread := read_body hcarried
  have hiff : ReadsBack (chars.map (List.map CodePoint.ofChar)) ↔
      (chars.map Xml.normalizeLines).map (List.map CodePoint.ofChar) =
        chars.map (List.map CodePoint.ofChar) := by
    constructor
    · intro hback
      rw [← keyTexts_documentNode]
      exact hback _ _ (encode_deleteXml chars) hread
    · intro heq body document hbody hdocument
      rw [encode_deleteXml, Option.some.injEq] at hbody
      rw [← hbody, hread, Option.some.injEq] at hdocument
      rw [← hdocument, keyTexts_documentNode, heq]
  have hinj : Function.Injective (List.map CodePoint.ofChar) :=
    List.map_injective_iff.2 fun _ _ => ofChar_inj.1
  have hself : chars.map Xml.normalizeLines = chars ↔ ∀ key ∈ chars, '\r' ∉ key := by
    constructor
    · intro heq key hkey
      rw [← heq, List.mem_map] at hkey
      obtain ⟨key, -, rfl⟩ := hkey
      exact Xml.notMem_normalizeLines key
    · intro hno
      rw [List.map_congr_left fun key hkey => Xml.normalizeLines_eq_self.2 (hno key hkey),
        List.map_id']
  rw [hiff, (List.map_injective_iff.2 hinj).eq_iff, hself, hasReturn_map]
  simp

/-- **reported kept**, where the store refuses the body -/
theorem reportsKept_iff (h : HasUncarried keys) {body : List Char}
    (hstore : ∃ why, store body = .error why) (hbody : (deleteXml keys).encode = some body) :
    ReportsKept store keys ↔ keys.Nodup := by
  obtain ⟨why, hwhy⟩ := hstore
  have hne : keys ≠ [] := by
    rintro rfl
    obtain ⟨key, hkey, -⟩ := h
    cases hkey
  have hfirst : (keys.map fun key => (key, why)).map Prod.fst = keys := by
    rw [List.map_map]
    exact List.map_id keys
  have hdelete : ∀ t, deleteBatch store t keys = .ok
      ⟨t.problems ++ dict (keys.map fun key => (key, why)),
        t.deleted + (keys.length - (dict (keys.map fun key => (key, why))).length)⟩ := by
    intro t
    have hmany : deleteMany store keys = .error (.s3Error why) := by
      rw [deleteMany, if_neg hne, hbody]
      simp only [hwhy]
    rw [deleteBatch, if_neg hne, hmany]
  have hlength := @length_dict (keys.map fun key => (key, why))
  rw [hfirst, List.length_map] at hlength
  constructor
  · intro hkept
    obtain ⟨t', ht', hdeleted, -⟩ := hkept h ⟨[], 0⟩
    rw [hdelete, Except.ok.injEq] at ht'
    rw [← ht'] at hdeleted
    dsimp only at hdeleted
    exact hlength.1 (by omega)
  · intro hnodup _ t
    refine ⟨_, hdelete t, ?_, fun key hkey => ?_⟩
    · rw [hlength.2 hnodup]
      simp
    · rw [List.map_append, List.mem_append, mem_dict, hfirst]
      exact .inr hkey

theorem not_reportsKept_of_hasSurrogate (h : HasSurrogate keys) : ¬ ReportsKept store keys := by
  intro hkept
  obtain ⟨key, hkey, p, hp, hnone⟩ := h
  have huncarried : HasUncarried keys := ⟨key, hkey, p, hp, by rw [CodePoint.carried, hnone]; rfl⟩
  obtain ⟨t', ht', -⟩ := hkept huncarried ⟨[], 0⟩
  have hne : keys ≠ [] := List.ne_nil_of_mem hkey
  rw [deleteBatch, if_neg hne, deleteMany, if_neg hne,
    encode_of_hasSurrogate ⟨key, hkey, p, hp, hnone⟩] at ht'
  cases ht'

/-- **what a batch delete deletes** -/
theorem batch_deletes_named (hstore : RefusesMalformed store) :
    (ReadsBack keys ∧ ReportsKept store keys) ↔
      ¬ HasSurrogate keys ∧
        (HasUncarried keys ∧ keys.Nodup ∨ ¬ HasUncarried keys ∧ ¬ HasReturn keys) := by
  by_cases hsurrogate : HasSurrogate keys
  · refine iff_of_false ?_ fun h => h.1 hsurrogate
    rintro ⟨-, hkept⟩
    exact not_reportsKept_of_hasSurrogate hsurrogate hkept
  obtain ⟨chars, rfl⟩ := chars_of_not_hasSurrogate hsurrogate
  by_cases huncarried : HasUncarried (chars.map (List.map CodePoint.ofChar))
  · have hnone := read_of_hasUncarried huncarried
    have hreads : ReadsBack (chars.map (List.map CodePoint.ofChar)) := by
      intro body document hbody hread
      rw [encode_deleteXml, Option.some.injEq] at hbody
      rw [← hbody, hnone] at hread
      cases hread
    simp only [hreads, true_and, hsurrogate, not_false_eq_true, huncarried, not_true_eq_false,
      false_and, or_false]
    exact reportsKept_iff huncarried (hstore _ _ (encode_deleteXml chars) hnone)
      (encode_deleteXml chars)
  · have hkept : ReportsKept store (chars.map (List.map CodePoint.ofChar)) := fun h =>
      absurd h huncarried
    simp only [hkept, and_true, hsurrogate, not_false_eq_true, huncarried, true_and, false_and,
      false_or]
    exact readsBack_iff huncarried

/-! ## A strict store -/

/-- a store that reads the body, and deletes what it names -/
def strictStore : ObjectStore := fun body =>
  match Xml.read body with
  | none => .error (Str.lit "MalformedXML")
  | some _ => .ok (some [])

theorem strictStore_refuses : RefusesMalformed strictStore := by
  intro keys body _ h
  exact ⟨_, by rw [strictStore, h]⟩

/-- a carriage return is read as a line feed: another object is deleted -/
theorem batch_misread :
    ¬ ∀ store keys, RefusesMalformed store → ReadsBack keys ∧ ReportsKept store keys := by
  intro hall
  obtain ⟨hback, -⟩ := hall strictStore ([['a', '\r']].map (List.map CodePoint.ofChar))
    strictStore_refuses
  have hcarried : ¬ HasUncarried ([['a', '\r']].map (List.map CodePoint.ofChar)) := by
    rw [hasUncarried_map]
    simp [Xml.isXmlChar]
  have hreturn : HasReturn ([['a', '\r']].map (List.map CodePoint.ofChar)) := by
    rw [hasReturn_map]
    simp
  exact (readsBack_iff hcarried).1 hback hreturn

theorem batch_deletes_named_escaped :
    ReadsBack ([['a', '&'], ['a', '\n']].map (List.map CodePoint.ofChar)) ∧
      ReportsKept strictStore ([['a', '&'], ['a', '\n']].map (List.map CodePoint.ofChar)) := by
  refine (batch_deletes_named strictStore_refuses).2 ⟨not_hasSurrogate_map _, .inr ⟨?_, ?_⟩⟩
  · rw [hasUncarried_map]
    simp [Xml.isXmlChar]
  · rw [hasReturn_map]
    simp

end Freepod.Cli
