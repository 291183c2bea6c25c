import Freepod.Base.JsonRoundTrip
import Freepod.Base.JsonSpelling
import Freepod.Upgrader.Redact

/-!
# What redaction takes out

* `Redactor.Clean`: no registered value has a bracket or is part of a marker, and no marker has a
  backslash.
* `kept_of_infix_bytes`: what has no bracket and is in no marker was in the data already.
* `not_infix_bytes`: no registered value is left in the bytes.
* `redaction_complete`: nor in what a line of them decodes to, but where the transcript spells it
  with an escape.
* `escaped_secret`: such a spelling gets through.
-/

namespace Freepod.Upgrader

open Base Base.JsonText

/-! ## what is registered -/

/-- a redactor once it has been told of the tokens -/
def build (secrets : List (List Char × List Char)) (privateKeyB64 : List Char)
    (tokens : List (List Char)) : Option Redactor :=
  (Redactor.new secrets privateKeyB64).map fun r => tokens.foldl Redactor.addToken r

/-- the values it is to take out -/
def registered (secrets : List (List Char × List Char)) (privateKeyB64 : List Char)
    (tokens : List (List Char)) : List (List Char) :=
  (secrets.map Prod.snd ++ (keyValues privateKeyB64).getD [] ++ tokens).filter (· ≠ [])

/-- the redactor knows the value -/
def Redactor.Knows (r : Redactor) (value : List Char) : Prop := utf8 value ∈ r.pairs.map Prod.fst

/-- adding a value adds that value and no other -/
theorem Redactor.knows_add {r : Redactor} {value value' name : List Char} :
    (r.add value' name).Knows value ↔ (value = value' ∧ value ≠ []) ∨ r.Knows value := by
  unfold Redactor.add
  split
  · rename_i h
    constructor
    · exact .inr
    · rintro (⟨rfl, hne⟩ | hk)
      · exact absurd h hne
      · exact hk
  · rename_i h
    show utf8 value ∈ (setKey _ _ r.pairs).map Prod.fst ↔ _
    rw [mem_map_fst_setKey]
    constructor
    · rintro (he | hk)
      · obtain rfl := utf8_injective he
        exact .inl ⟨rfl, h⟩
      · exact .inr hk
    · rintro (⟨rfl, -⟩ | hk)
      · exact .inl rfl
      · exact .inr hk

theorem Redactor.knows_foldl {β : Type*} (value name : β → List Char) {l : List β} {r : Redactor}
    {w : List Char} (hw : w ≠ []) (h : r.Knows w ∨ w ∈ l.map value) :
    (l.foldl (fun r x => r.add (value x) (name x)) r).Knows w := by
  induction l generalizing r with
  | nil =>
    obtain h | h := h
    · exact h
    · cases h
  | cons x l ih =>
    apply ih
    obtain h | h := h
    · exact .inl (Redactor.knows_add.mpr (.inr h))
    · obtain rfl | h := List.mem_cons.mp h
      · exact .inl (Redactor.knows_add.mpr (.inl ⟨rfl, hw⟩))
      · exact .inr h

/-- **every value is registered** -/
theorem knows_of_build {secrets : List (List Char × List Char)} {key : List Char}
    {tokens : List (List Char)} {r : Redactor} (h : build secrets key tokens = some r)
    {value : List Char} (hv : value ∈ registered secrets key tokens) : r.Knows value := by
  obtain ⟨r₀, hnew, rfl⟩ := Option.map_eq_some_iff.mp h
  obtain ⟨values, hvalues, he⟩ := Option.bind_eq_some_iff.mp hnew
  obtain rfl := Option.some.inj he
  simp only [registered, hvalues, Option.getD_some, List.mem_filter, List.mem_append,
    decide_eq_true_eq] at hv
  obtain ⟨hmem, hne⟩ := hv
  apply Redactor.knows_foldl (fun token => token) (fun _ => tokenName) hne
  rw [List.map_id']
  obtain (hs | hk) | ht := hmem
  · left
    apply Redactor.knows_foldl (fun value => value) (fun _ => keyName) hne
    left
    exact Redactor.knows_foldl Prod.snd Prod.fst hne (.inr hs)
  · left
    apply Redactor.knows_foldl (fun value => value) (fun _ => keyName) hne
    rw [List.map_id']
    exact .inr hk
  · exact .inr ht

/-! ## the bytes -/

/-- no value has a bracket or is part of a marker, and no marker has a backslash -/
structure Redactor.Clean (r : Redactor) : Prop where
  brackets : ∀ p ∈ r.pairs, 91 ∉ p.1 ∧ 93 ∉ p.1
  markers : ∀ p ∈ r.pairs, ∀ q ∈ r.pairs, ¬ p.1 <:+: q.2
  names : ∀ q ∈ r.pairs, 92 ∉ q.2

theorem endsOutside_markerOf (name : List Char) {s : List UInt8} (h : 91 ∉ s) (h' : 93 ∉ s) :
    EndsOutside (utf8 (markerOf name)) s := by
  refine ⟨91, utf8 ("redacted:".toList ++ name), 93, ?_, h, h'⟩
  show utf8 (('[' :: ("redacted:".toList ++ name)) ++ [']']) = _
  rw [utf8_append, utf8_cons]
  rfl

/-- **replacing one value after another takes each out and makes no other** -/
theorem foldl_replace {l : List (List UInt8 × List UInt8)}
    (hne : ∀ p ∈ l, p.1 ≠ []) (hnamed : ∀ p ∈ l, ∃ name, p.2 = utf8 (markerOf name))
    {s : List UInt8} (hs : 91 ∉ s ∧ 93 ∉ s) (hmarker : ∀ p ∈ l, ¬ s <:+: p.2) {data : List UInt8}
    (h : s <:+: l.foldl (fun data p => replace p.1 p.2 data) data) :
    s <:+: data ∧ ∀ p ∈ l, p.1 ≠ s := by
  induction l generalizing data with
  | nil => exact ⟨h, fun p hp => by cases hp⟩
  | cons p l ih =>
    have hl : ∀ {q}, q ∈ l → q ∈ p :: l := fun hq => List.mem_cons_of_mem p hq
    obtain ⟨hin, hrest⟩ := ih (fun q hq => hne q (hl hq)) (fun q hq => hnamed q (hl hq))
      (fun q hq => hmarker q (hl hq)) h
    have hp := hne p List.mem_cons_self
    have hm := hmarker p List.mem_cons_self
    obtain ⟨name, hname⟩ := hnamed p List.mem_cons_self
    have hends : EndsOutside p.2 s := hname ▸ endsOutside_markerOf name hs.1 hs.2
    constructor
    · exact (infix_of_infix_replace hp hends hin).resolve_right hm
    · intro q hq
      obtain rfl | hq := List.mem_cons.mp hq
      · rintro rfl
        exact not_infix_replace hp hends hm data hin
      · exact hrest q hq

variable {r : Redactor}

theorem Redactor.mem_byLength {p : List UInt8 × List UInt8} : p ∈ r.byLength ↔ p ∈ r.pairs :=
  List.mem_mergeSort

/-- **what has no bracket and is in no marker was in the data already**, and is no value -/
theorem kept_of_infix_bytes {s data : List UInt8} (hs : 91 ∉ s ∧ 93 ∉ s)
    (hmarker : ∀ p ∈ r.pairs, ¬ s <:+: p.2) (h : s <:+: r.bytes data) :
    s <:+: data ∧ ∀ p ∈ r.pairs, p.1 ≠ s := by
  obtain ⟨hin, hne⟩ := foldl_replace (fun p hp => r.nonempty p (r.mem_byLength.mp hp))
    (fun p hp => r.named p (r.mem_byLength.mp hp)) hs
    (fun p hp => hmarker p (r.mem_byLength.mp hp)) h
  exact ⟨hin, fun p hp => hne p (r.mem_byLength.mpr hp)⟩

/-- **no registered value is left in the bytes** -/
theorem not_infix_bytes (h : r.Clean) {value : List Char} (hv : r.Knows value)
    (data : List UInt8) : ¬ utf8 value <:+: r.bytes data := by
  intro hin
  obtain ⟨p, hp, he⟩ := List.mem_map.mp hv
  have hmarkers : ∀ q ∈ r.pairs, ¬ utf8 value <:+: q.2 := fun q hq => he ▸ h.markers p hp q hq
  exact (kept_of_infix_bytes (he ▸ h.brackets p hp) hmarkers hin).2 p hp he

/-! ## what a line decodes to -/

theorem utf8_isInfix {s t : List Char} (h : s <:+: t) : utf8 s <:+: utf8 t := by
  obtain ⟨l, r, rfl⟩ := h
  exact ⟨utf8 l, utf8 r, by rw [utf8_append, utf8_append]⟩

theorem infix_of_textOf {b : List UInt8} {text : List Char} (h : textOf b = some text) :
    utf8 text <:+: b := by
  unfold textOf at h
  split at h
  · cases h
  · split at h
    · rw [utf8_of_decodeUtf8 h]
      exact (List.drop_suffix 3 b).isInfix
    · split at h
      · cases h
      · rw [utf8_of_decodeUtf8 h]

/-- an ASCII byte of a text is a character of it -/
theorem mem_of_mem_utf8 {l : List Char} {b : UInt8} (h : b ∈ utf8 l) (hb : b.toNat < 128) :
    ∃ c ∈ l, c.toNat = b.toNat := by
  obtain ⟨c, hc, hbc⟩ := List.mem_flatMap.mp h
  exact ⟨c, hc, (eq_of_mem_utf8EncodeChar hbc hb).symm⟩

theorem mem_utf8_of_mem {l : List Char} {c : Char} (h : c ∈ l) (hc : c.toNat < 128) :
    UInt8.ofNat c.toNat ∈ utf8 l := by
  refine List.mem_flatMap.mpr ⟨c, h, ?_⟩
  rw [utf8EncodeChar_of_lt hc]
  exact List.mem_singleton_self _

theorem toNat_injective : Function.Injective Char.toNat := by
  intro c d h
  exact Char.ext (UInt32.toNat_inj.mp h)

/-- how an escape spells a registered value brings no bracket -/
theorem not_mem_spelling {value e : List Char} (h : Spells (value.map Char.toNat) e) {c : Char}
    (hc : c = '[' ∨ c = ']') (hv : UInt8.ofNat c.toNat ∉ utf8 value) :
    UInt8.ofNat c.toNat ∉ utf8 e := by
  have hlt : c.toNat < 128 := by
    rcases hc with rfl | rfl <;> decide
  intro hm
  have hbyte : (UInt8.ofNat c.toNat).toNat = c.toNat := by
    rcases hc with rfl | rfl <;> rfl
  obtain ⟨d, hd, hdc⟩ := mem_of_mem_utf8 hm (by rw [hbyte]; exact hlt)
  obtain rfl := toNat_injective (hdc.trans hbyte)
  obtain hval | hescape := h.mem hd
  · obtain ⟨x, hx, hxd⟩ := List.mem_map.mp hval
    obtain rfl := toNat_injective hxd
    exact hv (mem_utf8_of_mem hx hlt)
  · rcases hc with rfl | rfl <;> exact absurd hescape (by unfold IsEscapeChar; decide)

/-- **a value in what a redacted text decodes to is spelled with an escape**, and was in the data -/
theorem spelled_of_decoded (h : r.Clean) {value : List Char} (hv : r.Knows value)
    {data b : List UInt8} (hb : b <:+: r.bytes data) {text : List Char}
    (htext : textOf b = some text) {v : JsonText.Value} (hload : loads text = some v) {s : List Nat}
    (hs : s ∈ JsonText.strings v) (hin : value.map Char.toNat <:+: s) :
    ∃ e, Spells (value.map Char.toNat) e ∧ '\\' ∈ e ∧ e <:+: text ∧ utf8 e <:+: data := by
  obtain ⟨e₀, he₀, hspell₀⟩ := loads_spells hload hs
  obtain ⟨e, he, hspell⟩ := hspell₀.part hin
  have hetext := he.trans he₀
  have hebytes : utf8 e <:+: r.bytes data :=
    ((utf8_isInfix hetext).trans (infix_of_textOf htext)).trans hb
  have hback : '\\' ∈ e := by
    by_contra hn
    have hval := hspell.verbatim hn
    obtain rfl := List.map_injective_iff.mpr toNat_injective hval
    exact not_infix_bytes h hv data hebytes
  obtain ⟨p, hp, hpv⟩ := List.mem_map.mp hv
  obtain ⟨hopen, hclose⟩ := hpv ▸ h.brackets p hp
  have hbrackets : 91 ∉ utf8 e ∧ 93 ∉ utf8 e :=
    ⟨not_mem_spelling hspell (.inl rfl) hopen, not_mem_spelling hspell (.inr rfl) hclose⟩
  have hmarker : ∀ q ∈ r.pairs, ¬ utf8 e <:+: q.2 := fun q hq hi =>
    h.names q hq (hi.subset (mem_utf8_of_mem hback (by decide)))
  exact ⟨e, hspell, hback, hetext, (kept_of_infix_bytes hbrackets hmarker hebytes).1⟩

/-- **redaction is complete**, for literal copies.  Whatever values are registered, as long as none
has a bracket or is part of a marker: the redacted bytes have none of them in them, and a string
that a line decodes to, one of the redacted bytes or a line that is redacted on its own, has one
only where that line, and the data, spell it with a character escaped. -/
theorem redaction_complete {secrets : List (List Char × List Char)} {key : List Char}
    {tokens : List (List Char)} {r : Redactor} (hr : build secrets key tokens = some r)
    (h : r.Clean) {value : List Char} (hv : value ∈ registered secrets key tokens)
    (data : List UInt8) :
    ¬ utf8 value <:+: r.bytes data ∧
    ∀ b, b ∈ byteBreaks.splitlines (r.bytes data) ∨
        (∃ line ∈ byteBreaks.splitlines data, b = r.bytes line) →
      ∀ text, textOf b = some text → ∀ other v, jsonLoads other b = some v →
      ∀ s ∈ JsonText.strings v, value.map Char.toNat <:+: s →
        ∃ e, Spells (value.map Char.toNat) e ∧ '\\' ∈ e ∧ e <:+: text ∧ utf8 e <:+: data := by
  have hknown := knows_of_build hr hv
  refine ⟨not_infix_bytes h hknown data, ?_⟩
  intro b hb text htext other v hload s hs hin
  rw [jsonLoads, htext] at hload
  obtain hb | ⟨line, hline, rfl⟩ := hb
  · have hpart := (Breaks.reads_splitlines (r.bytes data)).infix_of_mem hb
    exact spelled_of_decoded h hknown hpart htext hload hs hin
  · have hpart := (Breaks.reads_splitlines data).infix_of_mem hline
    obtain ⟨e, hspell, hback, he, hdata⟩ :=
      spelled_of_decoded h hknown (List.infix_refl _) htext hload hs hin
    exact ⟨e, hspell, hback, he, hdata.trans hpart⟩

namespace Sample

def secrets : List (List Char × List Char) :=
  [("KEY".toList, "sk-12".toList), ("PASS".toList, "sk-1".toList)]

def redactor : Redactor :=
  ((((Redactor.empty.add "sk-12".toList "KEY".toList).add "sk-1".toList "PASS".toList).add
    "app-key".toList keyName).addToken "ghs_1".toList)

theorem keyValues_eq : keyValues "app-key".toList = some ["app-key".toList] := by
  have h : b64decode "app-key".toList = none := by decide
  unfold keyValues
  rw [h]
  decide

theorem build_eq : build secrets "app-key".toList ["ghs_1".toList] = some redactor := by
  unfold build Redactor.new
  rw [keyValues_eq]
  rfl

theorem redactor_clean : redactor.Clean where
  brackets := by decide +kernel
  markers := by decide +kernel
  names := by decide +kernel

theorem registered_eq : registered secrets "app-key".toList ["ghs_1".toList] =
    ["sk-12".toList, "sk-1".toList, "app-key".toList, "ghs_1".toList] := by
  unfold registered
  rw [keyValues_eq]
  decide

end Sample

theorem redaction_complete_sample :
    ¬ utf8 "sk-1".toList <:+: Sample.redactor.bytes (utf8 "a sk-sk-12 ghs_1".toList) :=
  (redaction_complete Sample.build_eq Sample.redactor_clean
    (by rw [Sample.registered_eq]; decide) _).1

namespace Sample

/-- a secret that JSON escapes -/
def quoted : Redactor := Redactor.empty.add "p\x22w".toList "PASS".toList

def entry : JsonText.Value := .obj [([116], .str [112, 34, 119])]

def line : List UInt8 := utf8 (JsonText.encode entry)

theorem quoted_bytes : quoted.bytes line = line := by
  unfold Redactor.bytes Redactor.byLength
  show (List.mergeSort [_] _).foldl _ _ = _
  rw [List.mergeSort_singleton]
  decide +kernel

theorem textOf_line : textOf line = some (JsonText.encode entry) := by
  unfold textOf line
  rw [if_neg (by decide +kernel), if_neg (by decide +kernel), if_neg (by decide +kernel),
    decodeUtf8_utf8]

theorem loads_entry : loads (JsonText.encode entry) = some entry := by
  apply loads_encode
  · simp only [entry, Plain, PlainFields, PlainField, and_true]
    decide
  · decide

end Sample

/-- a secret with a quotation mark is shown where JSON escapes the mark -/
theorem escaped_secret :
    ¬ ∀ (secrets : List (List Char × List Char)) (key : List Char) (tokens : List (List Char))
        (r : Redactor), build secrets key tokens = some r → r.Clean →
      ∀ value ∈ registered secrets key tokens, ∀ data,
        ¬ utf8 value <:+: r.bytes data ∧
        ∀ b ∈ byteBreaks.splitlines (r.bytes data), ∀ other v, jsonLoads other b = some v →
          ∀ s ∈ JsonText.strings v, ¬ value.map Char.toNat <:+: s := by
  intro h
  have hclean : Sample.quoted.Clean :=
    ⟨by decide +kernel, by decide +kernel, by decide +kernel⟩
  have hbuild : build [("PASS".toList, "p\x22w".toList)] [] [] = some Sample.quoted := rfl
  have hmem : "p\x22w".toList ∈ registered [("PASS".toList, "p\x22w".toList)] [] [] := by
    decide +kernel
  have hall := (h _ _ _ _ hbuild hclean _ hmem Sample.line).2
  rw [Sample.quoted_bytes] at hall
  have hline : Sample.line ∈ byteBreaks.splitlines Sample.line := by decide +kernel
  have hload : jsonLoads (fun _ => none) Sample.line = some Sample.entry := by
    rw [jsonLoads, Sample.textOf_line]
    exact Sample.loads_entry
  exact hall _ hline _ _ hload [112, 34, 119] (by decide) (by decide)

end Freepod.Upgrader
