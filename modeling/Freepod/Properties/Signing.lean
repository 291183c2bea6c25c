import Freepod.Base.Lists
import Freepod.Cli.Signing

/-!
# What is signed is what is addressed

* `Endpoint`: an endpoint's URL; `urlsplit_url` reads a key's URL back apart.
* `unquote_encodeKey`: a key's encoding, dot segments and all, decodes to the key.
* `decodeQuery_canonicalQuery`: the query string decodes to its pairs.
* `signed_is_addressed`: the path decodes to the bucket and the key, no segment of it is a dot
  segment, its re-encoding is what is signed, and no two keys share a URL or a canonical request.
* `empty_key`: the empty key addresses the bucket.
-/

namespace Freepod.Signing

open Base

/-! ## characters -/

theorem lt_of_isAlphanum {c : Char} (h : c.isAlphanum = true) : 47 < c.toNat := by
  unfold Char.isAlphanum Char.isAlpha Char.isUpper Char.isLower Char.isDigit at h
  simp only [Bool.or_eq_true, Bool.and_eq_true, decide_eq_true_eq, UInt32.le_iff_toNat_le,
    ge_iff_le] at h
  have h0 : c.toNat = c.val.toNat := rfl
  have h1 : 'A'.val.toNat = 65 := rfl
  have h2 : 'a'.val.toNat = 97 := rfl
  have h3 : '0'.val.toNat = 48 := rfl
  omega

/-- a character that an encoded path or query part may have -/
def Plain (c : Char) : Prop := isUnreserved c = true ∨ c = '/' ∨ c = '%'

theorem lt_of_isUnreserved {c : Char} (h : isUnreserved c = true) : 44 < c.toNat := by
  simp only [isUnreserved, Bool.or_eq_true, beq_iff_eq] at h
  rcases h with (((h | rfl) | rfl) | rfl) | rfl
  · have := lt_of_isAlphanum h
    omega
  all_goals decide

theorem Plain.lt {c : Char} (h : Plain c) : 32 < c.toNat := by
  obtain h | rfl | rfl := h
  · have := lt_of_isUnreserved h
    omega
  all_goals decide

/-- no separator of a URL or of a canonical request -/
theorem Plain.ne {c d : Char} (h : Plain c) (hd : isUnreserved d = false) (hs : d ≠ '/')
    (hp : d ≠ '%') : c ≠ d := by
  rintro rfl
  obtain h | h | h := h
  · rw [hd] at h
    cases h
  · exact hs h
  · exact hp h

theorem plain_of_mem_quoteBytes {bytes : List UInt8} {c : Char}
    (h : c ∈ quoteBytes ['/'] bytes) : Plain c := by
  obtain h | h | h := mem_quoteBytes h
  · exact .inl h
  · exact .inr (.inl (List.mem_singleton.mp h))
  · exact .inr (.inr h)

/-- an encoding that keeps no character safe has no separator at all -/
theorem ne_of_mem_quote {l : List Char} {c d : Char} (h : c ∈ quote [] l)
    (hd : isUnreserved d = false) (hp : d ≠ '%') : c ≠ d := by
  rintro rfl
  obtain h | h | h := mem_quoteBytes h
  · rw [hd] at h
    cases h
  · cases h
  · exact hp h

theorem quote_append (safe l r : List Char) :
    quote safe (l ++ r) = quote safe l ++ quote safe r := by
  unfold quote
  rw [utf8_append, quoteBytes_append]

theorem quote_slash (l : List Char) : quote ['/'] ('/' :: l) = '/' :: quote ['/'] l := by
  exact quote_append ['/'] ['/'] l

theorem unquote_quote (l r : List Char) : unquote (quote [] l ++ r) = utf8 l ++ unquote r :=
  unquote_quoteBytes (by simp) _ r

theorem unquote_slash (r : List Char) : unquote ('/' :: r) = utf8 ['/'] ++ unquote r :=
  unquote_cons (by decide) r

/-! ## keys -/

theorem unquote_encodeSegment (s r : List Char) :
    unquote (encodeSegment s ++ r) = utf8 s ++ unquote r := by
  unfold encodeSegment
  split
  · rename_i h
    obtain rfl | rfl := h
    · rfl
    · rfl
  · exact unquote_quote s r

theorem mem_intercalate {α : Type*} {sep : List α} {ls : List (List α)} {x : α}
    (h : x ∈ sep.intercalate ls) : x ∈ sep ∨ ∃ l ∈ ls, x ∈ l := by
  induction ls with
  | nil => cases h
  | cons l ls ih =>
    cases ls with
    | nil => exact .inr ⟨l, List.mem_cons_self, by simpa [List.intercalate] using h⟩
    | cons l' ls =>
      rw [List.intercalate_cons_cons, List.append_assoc] at h
      obtain h | h := List.mem_append.mp h
      · exact .inr ⟨l, List.mem_cons_self, h⟩
      · obtain h | h := List.mem_append.mp h
        · exact .inl h
        · exact (ih h).imp_right fun ⟨m, hm, hx⟩ => ⟨m, List.mem_cons_of_mem _ hm, hx⟩

theorem unquote_segments (ss : List (List Char)) (r : List Char) :
    unquote (['/'].intercalate (ss.map encodeSegment) ++ r) =
      utf8 (['/'].intercalate ss) ++ unquote r := by
  induction ss with
  | nil => rfl
  | cons s ss ih =>
    cases ss with
    | nil =>
      have := unquote_encodeSegment s r
      simpa [List.intercalate] using this
    | cons s' ss =>
      rw [List.map_cons, List.map_cons, List.intercalate_cons_cons, List.intercalate_cons_cons,
        List.append_assoc, List.append_assoc, unquote_encodeSegment, List.append_assoc,
        List.singleton_append,
        unquote_slash, utf8_append, utf8_append, List.append_assoc, List.append_assoc]
      rw [List.map_cons] at ih
      rw [ih]

/-- **a key's encoding decodes to the key** -/
theorem unquote_encodeKey (key r : List Char) :
    unquote (encodeKey key ++ r) = utf8 key ++ unquote r := by
  rw [encodeKey, unquote_segments, List.intercalate_splitOn]

theorem slash_notMem_encodeSegment (s : List Char) : '/' ∉ encodeSegment s := by
  unfold encodeSegment
  split
  · rename_i h
    obtain rfl | rfl := h <;> decide
  · intro h
    exact ne_of_mem_quote h (by decide) (by decide) rfl

theorem splitOn_encodeKey (key : List Char) :
    (encodeKey key).splitOn '/' = (key.splitOn '/').map encodeSegment := by
  unfold encodeKey
  apply List.splitOn_intercalate
  · intro l hl
    obtain ⟨s, -, rfl⟩ := List.mem_map.mp hl
    exact slash_notMem_encodeSegment s
  · intro h
    exact List.splitOn_ne_nil '/' key (List.map_eq_nil_iff.mp h)

/-- a segment an HTTP client removes from a path -/
def IsDot (s : List Char) : Prop := s = ['.'] ∨ s = ['.', '.']

theorem isDot_of_quote {s : List Char} (h : IsDot (quote [] s)) : IsDot s := by
  have hs : '%' ∉ ([] : List Char) := by simp
  obtain h | h := h
  · exact .inl (quote_injective hs (h.trans (by decide)))
  · exact .inr (quote_injective hs (h.trans (by decide)))

theorem not_isDot_encodeSegment (s : List Char) : ¬ IsDot (encodeSegment s) := by
  unfold encodeSegment
  split
  · rename_i h
    obtain rfl | rfl := h <;> unfold IsDot <;> decide
  · rename_i h
    exact fun hd => h (isDot_of_quote hd)

/-! ## an endpoint's URL -/

theorem cleaned_eq {url : List Char} (h : ∀ c ∈ url, 32 < c.toNat) : cleaned url = url := by
  unfold cleaned
  have hdrop : (url.dropWhile fun c => decide (c.toNat ≤ 32)) = url := by
    cases url with
    | nil => rfl
    | cons c url =>
      rw [List.dropWhile_cons_of_neg]
      have := h c List.mem_cons_self
      simpa using this
  rw [hdrop, List.filter_eq_self]
  intro c hc
  have hlt := h c hc
  simp only [List.mem_cons, List.not_mem_nil, or_false, decide_eq_true_eq, not_or]
  refine ⟨?_, ?_, ?_⟩ <;> rintro rfl <;> exact absurd hlt (by decide)

theorem takeWhile_append_cons {p : Char → Bool} {l r : List Char} {a : Char}
    (hl : ∀ c ∈ l, p c = true) (ha : p a = false) : (l ++ a :: r).takeWhile p = l := by
  rw [List.takeWhile_append_of_pos hl, List.takeWhile_cons_of_neg (by simp [ha]), List.append_nil]

theorem dropWhile_append_cons {p : Char → Bool} {l r : List Char} {a : Char}
    (hl : ∀ c ∈ l, p c = true) (ha : p a = false) : (l ++ a :: r).dropWhile p = a :: r := by
  rw [List.dropWhile_append_of_pos hl, List.dropWhile_cons_of_neg (by simp [ha])]

theorem rstripSlash_append {l : List Char} (h : l.getLast? ≠ some '/') (n : Nat) :
    rstripSlash (l ++ List.replicate n '/') = l := by
  unfold rstripSlash
  induction n with
  | zero =>
    rw [List.replicate_zero, List.append_nil, List.rdropWhile_eq_self_iff]
    intro hl hp
    exact h (by rw [List.getLast?_eq_some_getLast hl, of_decide_eq_true hp])
  | succ n ih =>
    rw [List.replicate_succ', ← List.append_assoc, List.rdropWhile_concat_pos _ _ _ (by rfl)]
    exact ih

/-- the URL of an object store: its path, if it has one, in the store's own encoding, and any number
of slashes after it.  `accepts` is what `urlsplit` checks of a network location: an IP address
between brackets, and no delimiter in its NFKC form. -/
structure Endpoint (accepts : List Char → Bool) where
  scheme : List Char
  netloc : List Char
  path : List Char
  slashes : Nat
  scheme_ok : (scheme.head?.any Char.isAlpha) = true ∧ scheme.all isSchemeChar = true
  netloc_ne : netloc ≠ []
  netloc_ok : ∀ c ∈ netloc, endsNetloc c = false ∧ 32 < c.toNat
  accepted : accepts netloc = true
  rooted : path = [] ∨ path.head? = some '/'
  trimmed : path.getLast? ≠ some '/'
  encoded : quoteBytes ['/'] (unquote path) = path
  dotless : ∀ s ∈ path.splitOn '/', ¬ IsDot s

namespace Endpoint

variable {accepts : List Char → Bool} (e : Endpoint accepts)

/-- the URL with a path in place of its own -/
def withPath (path : List Char) : List Char := e.scheme ++ ':' :: '/' :: '/' :: (e.netloc ++ path)

def text : List Char := e.withPath (e.path ++ List.replicate e.slashes '/')

theorem lt_of_mem_scheme {c : Char} (h : c ∈ e.scheme) : 32 < c.toNat ∧ c ≠ ':' := by
  have hc := List.all_eq_true.mp e.scheme_ok.2 c h
  simp only [isSchemeChar, Bool.or_eq_true, beq_iff_eq] at hc
  rcases hc with ((hc | rfl) | rfl) | rfl
  · have hlt := lt_of_isAlphanum hc
    refine ⟨by omega, ?_⟩
    rintro rfl
    exact absurd hc (by decide)
  all_goals decide

/-- **`urlsplit` finds the parts of such a URL** -/
theorem urlsplit_withPath {path : List Char} (hroot : path = [] ∨ path.head? = some '/')
    (hplain : ∀ c ∈ path, Plain c) : urlsplit (e.withPath path) = (e.netloc, path) := by
  have hclean : cleaned (e.withPath path) = e.withPath path := by
    apply cleaned_eq
    intro c hc
    simp only [withPath, List.mem_append, List.mem_cons] at hc
    rcases hc with hc | rfl | rfl | rfl | hc | hc
    · exact (e.lt_of_mem_scheme hc).1
    · decide
    · decide
    · decide
    · exact (e.netloc_ok c hc).2
    · exact (hplain c hc).lt
  have hscheme : (e.withPath path).takeWhile (· ≠ ':') = e.scheme := by
    apply takeWhile_append_cons
    · intro c hc
      exact decide_eq_true (e.lt_of_mem_scheme hc).2
    · rfl
  have hafter : afterScheme (e.withPath path) = '/' :: '/' :: (e.netloc ++ path) := by
    unfold afterScheme
    simp only
    rw [hscheme, if_pos]
    · unfold withPath
      rw [← List.drop_drop, List.drop_left]
      rfl
    · refine ⟨?_, e.scheme_ok⟩
      simp [withPath]
  have hnetloc : ∀ c ∈ e.netloc, (!endsNetloc c) = true := by
    intro c hc
    rw [(e.netloc_ok c hc).1]
    rfl
  have hparts : ((e.netloc ++ path).takeWhile fun c => !endsNetloc c) = e.netloc ∧
      ((e.netloc ++ path).dropWhile fun c => !endsNetloc c) = path := by
    cases path with
    | nil =>
      rw [List.append_nil]
      exact ⟨List.takeWhile_eq_self_iff.mpr hnetloc, List.dropWhile_eq_nil_iff.mpr hnetloc⟩
    | cons c path =>
      obtain h | h := hroot
      · cases h
      · obtain rfl : c = '/' := Option.some.inj h
        exact ⟨takeWhile_append_cons hnetloc rfl, dropWhile_append_cons hnetloc rfl⟩
  have hwhole : ∀ d : Char, isUnreserved d = false → d ≠ '/' → d ≠ '%' →
      path.takeWhile (· ≠ d) = path := by
    intro d hd hs hp
    apply List.takeWhile_eq_self_iff.mpr
    intro c hc
    exact decide_eq_true ((hplain c hc).ne hd hs hp)
  unfold urlsplit
  rw [hclean, hafter]
  simp only
  rw [hparts.1, hparts.2, hwhole '#' (by decide) (by decide) (by decide),
    hwhole '?' (by decide) (by decide) (by decide)]

theorem plain_of_mem_path {c : Char} (h : c ∈ e.path) : Plain c := by
  rw [← e.encoded] at h
  exact plain_of_mem_quoteBytes h

theorem rstripSlash_text : rstripSlash e.text = e.withPath e.path := by
  have hlast : (e.withPath e.path).getLast? ≠ some '/' := by
    unfold withPath
    intro h
    have hsome : (e.netloc ++ e.path).getLast? = some '/' := by
      rw [List.getLast?_append_of_ne_nil _ (by simp), List.getLast?_cons_cons,
        List.getLast?_cons_cons] at h
      cases hne : e.netloc ++ e.path with
      | nil => exact absurd (List.append_eq_nil_iff.mp hne).1 e.netloc_ne
      | cons c l =>
        rw [hne, List.getLast?_cons_cons] at h
        exact h
    by_cases hp : e.path = []
    · rw [hp, List.append_nil] at hsome
      have := (e.netloc_ok '/' (List.mem_of_getLast? hsome)).1
      exact absurd this (by decide)
    · rw [List.getLast?_append_of_ne_nil _ hp] at hsome
      exact e.trimmed hsome
  have ht : e.text = e.withPath e.path ++ List.replicate e.slashes '/' := by
    simp [text, withPath]
  rw [ht, rstripSlash_append hlast]

theorem rstripSlash_path : rstripSlash (urlsplit e.text).2 = e.path := by
  unfold text
  rw [urlsplit_withPath, rstripSlash_append e.trimmed]
  · obtain h | h := e.rooted
    · rw [h, List.nil_append]
      cases e.slashes with
      | zero => exact .inl rfl
      | succ n => exact .inr rfl
    · right
      rw [List.head?_append, h]
      rfl
  · intro c hc
    obtain hc | hc := List.mem_append.mp hc
    · exact e.plain_of_mem_path hc
    · exact .inr (.inl (List.eq_of_mem_replicate hc))

end Endpoint

/-! ## a key's URL -/

/-- credentials for a bucket of an object store -/
structure Credentials.At {accepts : List Char → Bool} (c : Credentials) (e : Endpoint accepts) :
    Prop where
  endpoint : c.endpoint = e.text
  plain : '/' ∉ c.bucket
  named : ¬ IsDot c.bucket

/-- what a key's URL stands for, under the endpoint's own path -/
def address (bucket key : List Char) : List Char :=
  '/' :: bucket ++ if key = [] then [] else '/' :: key

section Keys

variable {accepts : List Char → Bool} {c : Credentials} {e : Endpoint accepts} (h : c.At e)
include h

omit h in
theorem target_plain (key : List Char) : ∀ x ∈ e.path ++ c.target encodeKey key, Plain x := by
  have hquote : ∀ l : List Char, ∀ x ∈ quote [] l, Plain x := by
    intro l x hx
    obtain hx | hx | hx := mem_quoteBytes hx
    · exact .inl hx
    · cases hx
    · exact .inr (.inr hx)
  have hkey : ∀ x ∈ encodeKey key, Plain x := by
    intro x hx
    obtain hs | ⟨l, hl, hx⟩ := mem_intercalate hx
    · exact .inr (.inl (List.mem_singleton.mp hs))
    · obtain ⟨s, -, rfl⟩ := List.mem_map.mp hl
      unfold encodeSegment at hx
      split at hx
      · obtain ⟨-, -, hx⟩ := List.mem_flatMap.mp hx
        simp only [List.mem_cons, List.not_mem_nil, or_false] at hx
        rcases hx with rfl | rfl | rfl
        · exact .inr (.inr rfl)
        · exact .inl (by decide)
        · exact .inl (by decide)
      · exact hquote s x hx
  intro x hx
  obtain hx | hx := List.mem_append.mp hx
  · exact e.plain_of_mem_path hx
  · unfold Credentials.target at hx
    obtain rfl | hx := List.mem_cons.mp hx
    · exact .inr (.inl rfl)
    · obtain hx | hx := List.mem_append.mp hx
      · exact hquote _ x hx
      · split at hx
        · cases hx
        · obtain rfl | hx := List.mem_cons.mp hx
          · exact .inr (.inl rfl)
          · exact hkey x hx

theorem url_eq (key : List Char) :
    c.url key = e.withPath (e.path ++ c.target encodeKey key) := by
  unfold Credentials.url
  rw [h.endpoint, e.rstripSlash_text]
  simp [Endpoint.withPath]

/-- the path of a key's URL -/
theorem urlsplit_url (key : List Char) :
    urlsplit (c.url key) = (e.netloc, e.path ++ c.target encodeKey key) := by
  rw [url_eq h, e.urlsplit_withPath]
  · obtain hp | hp := e.rooted
    · right
      rw [hp]
      rfl
    · right
      rw [List.head?_append, hp]
      rfl
  · exact target_plain key

/-- **the path decodes to the bucket and the key** -/
theorem unquote_path (key : List Char) :
    unquote (urlsplit (c.url key)).2 = unquote e.path ++ utf8 (address c.bucket key) := by
  have hpath : ∀ r, unquote (e.path ++ r) = unquote e.path ++ unquote r := by
    intro r
    conv_lhs => rw [← e.encoded]
    exact unquote_quoteBytes (by decide) _ r
  have hbucket : ∀ r, unquote ('/' :: (quote [] c.bucket ++ r)) =
      utf8 ('/' :: c.bucket) ++ unquote r := by
    intro r
    rw [unquote_slash, unquote_quote, ← List.append_assoc, ← utf8_append]
    rfl
  rw [urlsplit_url h, hpath]
  congr 1
  show unquote ('/' :: (quote [] c.bucket ++ if key = [] then [] else '/' :: encodeKey key)) = _
  rw [hbucket]
  unfold address
  split
  · rw [List.append_nil]
    exact List.append_nil _
  · have hkey := unquote_encodeKey key []
    rw [List.append_nil] at hkey
    have hslash : utf8 ('/' :: key) = utf8 ['/'] ++ utf8 key := utf8_append ['/'] key
    rw [unquote_slash, hkey, utf8_append, hslash]
    simp [unquote]

/-- **no segment of it is a dot segment** -/
theorem not_isDot_segment (key : List Char) :
    ∀ s ∈ ((urlsplit (c.url key)).2).splitOn '/', ¬ IsDot s := by
  have hbucket : '/' ∉ quote [] c.bucket := by
    intro hm
    exact ne_of_mem_quote hm (by decide) (by decide) rfl
  have hnamed : ¬ IsDot (quote [] c.bucket) := fun hd => h.named (isDot_of_quote hd)
  rw [urlsplit_url h]
  show ∀ s ∈ (e.path ++ '/' :: (quote [] c.bucket ++
    if key = [] then [] else '/' :: encodeKey key)).splitOn '/', _
  rw [List.splitOn_append_cons_self]
  intro s hs
  obtain hs | hs := List.mem_append.mp hs
  · exact e.dotless s hs
  · split at hs
    · rw [List.append_nil, List.splitOn_eq_singleton hbucket, List.mem_singleton] at hs
      rw [hs]
      exact hnamed
    · rw [List.splitOn_append_cons_self, List.splitOn_eq_singleton hbucket, splitOn_encodeKey] at hs
      obtain hs | hs := List.mem_append.mp hs
      · rw [List.mem_singleton.mp hs]
        exact hnamed
      · obtain ⟨s, -, rfl⟩ := List.mem_map.mp hs
        exact not_isDot_encodeSegment s

theorem canonicalPath_eq (key : List Char) :
    c.canonicalPath key = e.path ++ quote ['/'] (address c.bucket key) := by
  unfold Credentials.canonicalPath
  rw [h.endpoint, e.rstripSlash_path]
  congr 1
  show '/' :: (quote [] c.bucket ++ if key = [] then [] else '/' :: quote ['/'] key) = _
  unfold address
  rw [List.cons_append, quote_slash, quote_append, quote_of_notMem h.plain]
  split
  · rfl
  · rw [quote_slash]

/-- **what is signed is the re-encoding of what is sent** -/
theorem canonicalPath_reencodes (key : List Char) :
    c.canonicalPath key = quoteBytes ['/'] (unquote (urlsplit (c.url key)).2) := by
  rw [canonicalPath_eq h, unquote_path h, quoteBytes_append, e.encoded]
  rfl

omit h in
theorem address_injective (bucket : List Char) : Function.Injective (address bucket) := by
  intro k k' he
  have he := List.append_cancel_left he
  split at he
  · rename_i hk
    split at he
    · rename_i hk'
      rw [hk, hk']
    · cases he
  · split at he
    · cases he
    · exact (List.cons.inj he).2

theorem url_injective : Function.Injective c.url := by
  intro k k' he
  have hu := congrArg (fun url => unquote (urlsplit url).2) he
  rw [unquote_path h, unquote_path h] at hu
  exact address_injective c.bucket (utf8_injective (List.append_cancel_left hu))

theorem canonicalPath_injective : Function.Injective c.canonicalPath := by
  intro k k' he
  rw [canonicalPath_eq h, canonicalPath_eq h] at he
  exact address_injective c.bucket (quote_injective (by decide) (List.append_cancel_left he))

theorem newline_notMem_canonicalPath (key : List Char) : '\n' ∉ c.canonicalPath key := by
  intro hm
  rw [canonicalPath_reencodes h] at hm
  exact (plain_of_mem_quoteBytes hm).ne (by decide) (by decide) (by decide) rfl

/-- the query begins at the first question mark -/
theorem ne_question_of_mem_url {key : List Char} {x : Char} (hx : x ∈ c.url key) : x ≠ '?' := by
  rw [url_eq h] at hx
  simp only [Endpoint.withPath, List.mem_append, List.mem_cons] at hx
  rcases hx with hx | rfl | rfl | rfl | hx | hx
  · have hc := List.all_eq_true.mp e.scheme_ok.2 x hx
    rintro rfl
    exact absurd hc (by decide)
  · decide
  · decide
  · decide
  · rintro rfl
    exact absurd (e.netloc_ok _ hx).1 (by decide)
  · exact (target_plain key x (List.mem_append.mpr hx)).ne (by decide) (by decide) (by decide)

end Keys

/-! ## queries -/

/-- the query string of a URL -/
def queryOf (url : List Char) : List Char := (url.dropWhile (· ≠ '?')).drop 1

theorem queryOf_sentUrl {accepts : List Char → Bool} {c : Credentials} {e : Endpoint accepts}
    (h : c.At e) (key : List Char)
    (query : List (List Char × List Char)) :
    queryOf (c.sentUrl key query) = canonicalQuery query := by
  have hurl : ∀ x ∈ c.url key, decide (x ≠ '?') = true :=
    fun x hx => decide_eq_true (ne_question_of_mem_url h hx)
  unfold queryOf Credentials.sentUrl
  split
  · rename_i hq
    rw [List.dropWhile_eq_nil_iff.mpr hurl, hq]
    simp [canonicalQuery]
  · rw [dropWhile_append_cons hurl rfl]
    rfl

theorem pairLe_iff {p q : List Char × List Char} :
    pairLe p q = true ↔ p.1 < q.1 ∨ (p.1 = q.1 ∧ p.2 ≤ q.2) := decide_eq_true_iff

theorem pairLe_trans {p q r : List Char × List Char} (hpq : pairLe p q = true)
    (hqr : pairLe q r = true) : pairLe p r = true := by
  rw [pairLe_iff] at *
  obtain hlt | ⟨he, hle⟩ := hpq
  · obtain hlt' | ⟨he', -⟩ := hqr
    · exact .inl (lt_trans hlt hlt')
    · exact .inl (he' ▸ hlt)
  · rw [he]
    exact hqr.imp_right (And.imp_right (le_trans hle))

theorem pairLe_total (p q : List Char × List Char) : pairLe p q = true ∨ pairLe q p = true := by
  rw [pairLe_iff, pairLe_iff]
  by_cases hpq : p.1 < q.1
  · exact .inl (.inl hpq)
  by_cases hqp : q.1 < p.1
  · exact .inr (.inl hqp)
  have he : p.1 = q.1 := le_antisymm (not_lt.mp hqp) (not_lt.mp hpq)
  exact (le_total p.2 q.2).imp (fun hle => .inr ⟨he, hle⟩) (fun hle => .inr ⟨he.symm, hle⟩)

/-- the pairs as `_canonical_query` writes them -/
def sortedPairs (query : List (List Char × List Char)) : List (List Char × List Char) :=
  (query.map fun p => (quote [] p.1, quote [] p.2)).mergeSort pairLe

theorem sortedPairs_perm (query : List (List Char × List Char)) :
    (sortedPairs query).Perm (query.map fun p => (quote [] p.1, quote [] p.2)) :=
  List.mergeSort_perm _ _

theorem sortedPairs_pairwise (query : List (List Char × List Char)) :
    (sortedPairs query).Pairwise fun p q => pairLe p q = true := by
  apply List.pairwise_mergeSort
  · intro p q r
    exact pairLe_trans
  · intro p q
    rw [Bool.or_eq_true]
    exact pairLe_total p q

theorem mem_sortedPairs {query : List (List Char × List Char)} {p : List Char × List Char}
    (h : p ∈ sortedPairs query) : ∃ k v, p = (quote [] k, quote [] v) := by
  obtain ⟨q, -, rfl⟩ := List.mem_map.mp ((sortedPairs_perm query).mem_iff.mp h)
  exact ⟨q.1, q.2, rfl⟩

/-- one assignment decodes to its pair -/
theorem decode_assignment {p : List Char × List Char} (h : ∃ k v, p = (quote [] k, quote [] v)) :
    (unquote ((assignment p).takeWhile (· ≠ '=')),
      unquote (((assignment p).dropWhile (· ≠ '=')).drop 1)) = (unquote p.1, unquote p.2) := by
  obtain ⟨k, v, rfl⟩ := h
  have hk : ∀ x ∈ quote [] k, decide (x ≠ '=') = true :=
    fun x hx => decide_eq_true (ne_of_mem_quote hx (by decide) (by decide))
  unfold assignment
  rw [takeWhile_append_cons hk rfl, dropWhile_append_cons hk rfl]
  rfl

theorem ampersand_notMem_assignment {p : List Char × List Char}
    (h : ∃ k v, p = (quote [] k, quote [] v)) : '&' ∉ assignment p := by
  obtain ⟨k, v, rfl⟩ := h
  intro hm
  obtain hm | hm := List.mem_append.mp hm
  · exact ne_of_mem_quote hm (by decide) (by decide) rfl
  · obtain hm | hm := List.mem_cons.mp hm
    · cases hm
    · exact ne_of_mem_quote hm (by decide) (by decide) rfl

/-- **the query string decodes to its pairs**, in their canonical order -/
theorem decodeQuery_canonicalQuery (query : List (List Char × List Char)) :
    decodeQuery (canonicalQuery query) =
      (sortedPairs query).map fun p => (unquote p.1, unquote p.2) := by
  show decodeQuery (['&'].intercalate ((sortedPairs query).map assignment)) = _
  have hmem := fun p (hp : p ∈ sortedPairs query) => mem_sortedPairs hp
  generalize sortedPairs query = l at hmem
  cases l with
  | nil => rfl
  | cons p l =>
    have hsplit : (['&'].intercalate ((p :: l).map assignment)).splitOn '&' =
        (p :: l).map assignment := by
      apply List.splitOn_intercalate
      · intro x hx
        obtain ⟨q, hq, rfl⟩ := List.mem_map.mp hx
        exact ampersand_notMem_assignment (hmem q hq)
      · exact List.cons_ne_nil _ _
    have hne : ['&'].intercalate ((p :: l).map assignment) ≠ [] := by
      intro he
      rw [he, List.splitOn_nil, List.map_cons] at hsplit
      exact absurd (List.cons.inj hsplit).1 (by simp [assignment])
    unfold decodeQuery
    rw [if_neg hne, hsplit, List.map_map]
    apply List.map_congr_left
    intro q hq
    exact decode_assignment (hmem q hq)

theorem unquote_quote_nil (l : List Char) : unquote (quote [] l) = utf8 l := by
  have := unquote_quote l []
  simpa [unquote] using this

theorem decodeQuery_perm (query : List (List Char × List Char)) :
    (decodeQuery (canonicalQuery query)).Perm (query.map fun p => (utf8 p.1, utf8 p.2)) := by
  rw [decodeQuery_canonicalQuery]
  refine ((sortedPairs_perm query).map _).trans ?_
  rw [List.map_map]
  refine List.Perm.of_eq (List.map_congr_left ?_)
  intro p _
  exact Prod.ext (unquote_quote_nil p.1) (unquote_quote_nil p.2)

/-- **and it is its own canonical form** -/
theorem canonicalForm_decodeQuery (query : List (List Char × List Char)) :
    canonicalForm (decodeQuery (canonicalQuery query)) = canonicalQuery query := by
  have hback : (decodeQuery (canonicalQuery query)).map
      (fun p => (quoteBytes [] p.1, quoteBytes [] p.2)) = sortedPairs query := by
    rw [decodeQuery_canonicalQuery, List.map_map]
    refine (List.map_congr_left ?_).trans (List.map_id _)
    intro p hp
    obtain ⟨k, v, rfl⟩ := mem_sortedPairs hp
    exact Prod.ext (congrArg (quoteBytes []) (unquote_quote_nil k))
      (congrArg (quoteBytes []) (unquote_quote_nil v))
  unfold canonicalForm
  rw [hback, List.mergeSort_of_pairwise (sortedPairs_pairwise query)]
  rfl

/-! ## canonical requests -/

/-- a text is a first line and the rest in one way -/
theorem lines_inj {l l' r r' : List Char} (hl : '\n' ∉ l) (hl' : '\n' ∉ l')
    (h : l ++ '\n' :: r = l' ++ '\n' :: r') : l = l' ∧ r = r' := by
  have hline : ∀ {l r : List Char}, '\n' ∉ l → (l ++ '\n' :: r).takeWhile (· ≠ '\n') = l := by
    intro l r hl
    apply takeWhile_append_cons
    · intro c hc
      exact decide_eq_true (ne_of_mem_of_not_mem hc hl)
    · rfl
  have he : l = l' := by
    rw [← hline hl, h, hline hl']
  rw [he] at h
  exact ⟨he, (List.cons.inj (List.append_cancel_left h)).2⟩

/-- a canonical request is its method, its path and the rest, a line each -/
theorem exists_canonicalRequest_eq (m p : List Char) (q hd : List (List Char × List Char))
    (ph : List Char) :
    ∃ rest, canonicalRequest m p q hd ph = m ++ '\n' :: (p ++ '\n' :: rest) := by
  unfold canonicalRequest
  dsimp only
  rw [List.intercalate_cons_cons, List.intercalate_cons_cons, List.append_assoc, List.append_assoc]
  exact ⟨_, rfl⟩

theorem path_of_canonicalRequest {m m' p p' ph ph' : List Char}
    {q q' hd hd' : List (List Char × List Char)} (hm : '\n' ∉ m) (hm' : '\n' ∉ m') (hp : '\n' ∉ p)
    (hp' : '\n' ∉ p') (h : canonicalRequest m p q hd ph = canonicalRequest m' p' q' hd' ph') :
    p = p' := by
  obtain ⟨rest, hr⟩ := exists_canonicalRequest_eq m p q hd ph
  obtain ⟨rest', hr'⟩ := exists_canonicalRequest_eq m' p' q' hd' ph'
  rw [hr, hr'] at h
  exact (lines_inj hp hp' (lines_inj hm hm' h).2).1

/-- **what is signed is what is addressed**.  For every key of every bucket: the path of its URL
decodes to the bucket and the key (the empty key addresses the bucket itself), none of its segments
is a dot segment, and the path that is signed is the re-encoding of what it decodes to.  For every
query, the query string sent decodes to its pairs and is its own canonical form.  So no two keys
share a URL, nor a canonical request, whatever else is in it. -/
theorem signed_is_addressed {accepts : List Char → Bool} {c : Credentials}
    {e : Endpoint accepts} (h : c.At e) :
    (∀ key, key ≠ [] → unquote (urlsplit (c.url key)).2 =
      unquote e.path ++ utf8 ('/' :: c.bucket ++ '/' :: key)) ∧
    unquote (urlsplit (c.url [])).2 = unquote e.path ++ utf8 ('/' :: c.bucket) ∧
    (∀ key, ∀ s ∈ ((urlsplit (c.url key)).2).splitOn '/', ¬ IsDot s) ∧
    (∀ key, c.canonicalPath key = quoteBytes ['/'] (unquote (urlsplit (c.url key)).2)) ∧
    (∀ key query,
      (decodeQuery (queryOf (c.sentUrl key query))).Perm
        (query.map fun p => (utf8 p.1, utf8 p.2)) ∧
      canonicalForm (decodeQuery (queryOf (c.sentUrl key query))) =
        queryOf (c.sentUrl key query)) ∧
    (∀ key key', c.url key = c.url key' → key = key') ∧
    (∀ method method' key key' query query' headers headers' date date' hash hash',
      '\n' ∉ method → '\n' ∉ method' →
      signedRequest c method key query headers date hash =
        signedRequest c method' key' query' headers' date' hash' → key = key') := by
  refine ⟨?_, ?_, not_isDot_segment h, canonicalPath_reencodes h, ?_,
    fun key key' he => url_injective h he, ?_⟩
  · intro key hkey
    rw [unquote_path h, address, if_neg hkey]
  · rw [unquote_path h, address, if_pos rfl, List.append_nil]
  · intro key query
    rw [queryOf_sentUrl h]
    exact ⟨decodeQuery_perm query, canonicalForm_decodeQuery query⟩
  · intro m m' key key' q q' hd hd' date date' hash hash' hm hm' he
    exact canonicalPath_injective h (path_of_canonicalRequest hm hm'
      (newline_notMem_canonicalPath h key) (newline_notMem_canonicalPath h key') he)

/-- a name in ASCII, without brackets -/
def isHostName (netloc : List Char) : Bool := netloc.all fun c => c.isAlphanum || c == '.'

/-- an object store without a path of its own -/
def sampleEndpoint : Endpoint isHostName where
  scheme := ['h', 't', 't', 'p', 's']
  netloc := ['s', '3', '.', 't', 'e', 's', 't']
  path := []
  slashes := 1
  scheme_ok := by decide
  netloc_ne := by decide
  netloc_ok := forall_mem_of_all (by decide)
  accepted := by decide
  rooted := .inl rfl
  trimmed := by decide
  encoded := rfl
  dotless := by
    intro s hs
    rw [List.splitOn_nil, List.mem_singleton] at hs
    rw [hs]
    unfold IsDot
    decide

def sampleCredentials : Credentials :=
  ⟨sampleEndpoint.text, ['g'], ['d', 'e', 'p'], ['k'], ['s']⟩

theorem sampleCredentials_at : sampleCredentials.At sampleEndpoint where
  endpoint := rfl
  plain := by decide
  named := by
    unfold IsDot
    decide

theorem signed_is_addressed_sample :
    unquote (urlsplit (sampleCredentials.url ['a', '/', '.', '.', '/', '%', 'é'])).2 =
        utf8 ['/', 'd', 'e', 'p', '/', 'a', '/', '.', '.', '/', '%', 'é'] ∧
      sampleCredentials.url ['b'] ≠ sampleCredentials.url ['a', '/', '.', '.', '/', 'b'] := by
  obtain ⟨hkey, -, -, -, -, hurl, -⟩ := signed_is_addressed sampleCredentials_at
  exact ⟨hkey _ (by decide), fun he => absurd (hurl _ _ he) (by decide)⟩

/-- the URL of the empty key has no slash after the bucket -/
theorem empty_key :
    ¬ ∀ key, unquote (urlsplit (sampleCredentials.url key)).2 =
      utf8 ('/' :: sampleCredentials.bucket ++ '/' :: key) := by
  intro h
  have hempty := h []
  rw [unquote_path sampleCredentials_at] at hempty
  exact absurd hempty (by decide)

end Freepod.Signing
