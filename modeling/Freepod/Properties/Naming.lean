import Freepod.Base.Lists
import Freepod.Platform.Naming
import Mathlib.Data.List.Chain

/-!
# Generated names are legal

* `Slug`: words of letters and digits with one hyphen between them.
* `slugifyToken_slug`, `trimBase_slug`: what is made of any text is one, cut at any length.
* `Slug.components`: none of its components is empty.
* `names_legal`: the generated names.
-/

namespace Freepod.Naming

open Base

/-- words of `[a-z0-9]` with one hyphen between them, or nothing -/
structure Slug (l : List Char) : Prop where
  chars : ∀ c ∈ l, isLowerAlnum c = true ∨ c = '-'
  single : l.IsChain fun a b => ¬ (a = '-' ∧ b = '-')
  head : l.head? ≠ some '-'
  last : l.getLast? ≠ some '-'

/-! ## what `re.sub` and `strip` leave -/

theorem mem_subRuns {cls : Char → Bool} {repl c : Char} {inRun : Bool} {l : List Char}
    (h : c ∈ subRuns cls repl inRun l) : c = repl ∨ (c ∈ l ∧ cls c = false) := by
  induction l generalizing inRun with
  | nil => cases h
  | cons a l ih =>
    have hrest : ∀ inRun, c ∈ subRuns cls repl inRun l → c = repl ∨ (c ∈ a :: l ∧ cls c = false) :=
      fun _ h => (ih h).imp_right fun h => ⟨List.mem_cons_of_mem a h.1, h.2⟩
    unfold subRuns at h
    split at h
    · split at h
      · exact hrest _ h
      · obtain rfl | h := List.mem_cons.mp h
        · exact .inl rfl
        · exact hrest _ h
    · rename_i hcls
      obtain rfl | h := List.mem_cons.mp h
      · exact .inr ⟨List.mem_cons_self, Bool.eq_false_iff.mpr hcls⟩
      · exact hrest _ h

/-- after a collapsed run comes something else -/
theorem subRuns_hyphens (l : List Char) (inRun : Bool) :
    (subRuns (· = '-') '-' inRun l).IsChain (fun a b => ¬ (a = '-' ∧ b = '-')) ∧
      (inRun = true → (subRuns (· = '-') '-' inRun l).head? ≠ some '-') := by
  induction l generalizing inRun with
  | nil => exact ⟨List.isChain_nil, fun _ h => by cases h⟩
  | cons c l ih =>
    unfold subRuns
    split
    · split
      · rename_i hrun
        rw [hrun]
        exact ih true
      · rename_i hrun
        obtain ⟨hchain, hhead⟩ := ih true
        refine ⟨List.isChain_cons.mpr ⟨?_, hchain⟩, fun h => absurd h hrun⟩
        rintro b hb ⟨-, rfl⟩
        exact hhead rfl hb
    · rename_i hc
      have hc : c ≠ '-' := fun h => hc (decide_eq_true h)
      obtain ⟨hchain, -⟩ := ih false
      refine ⟨List.isChain_cons.mpr ⟨fun b _ h => hc h.1, hchain⟩, fun _ h => ?_⟩
      exact hc (Option.some.inj h)

theorem isInfix_stripHyphens (l : List Char) : stripHyphens l <:+: l :=
  (List.rdropWhile_prefix _ _).isInfix.trans (List.dropWhile_suffix _).isInfix

theorem stripHyphens_slug {l : List Char} (hchars : ∀ c ∈ l, isLowerAlnum c = true ∨ c = '-')
    (hsingle : l.IsChain fun a b => ¬ (a = '-' ∧ b = '-')) : Slug (stripHyphens l) where
  chars c hc := hchars c ((isInfix_stripHyphens l).subset hc)
  single := List.IsChain.infix hsingle (isInfix_stripHyphens l)
  head := by
    intro h
    have hhead : (l.dropWhile (· = '-')).head? = some '-' := by
      obtain ⟨t, ht⟩ := List.rdropWhile_prefix (fun c : Char => decide (c = '-'))
        (l.dropWhile (· = '-'))
      rw [← ht, List.head?_append]
      exact (congrArg (Option.or · t.head?) h).trans rfl
    have hnot := List.head?_dropWhile_not (fun c : Char => decide (c = '-')) l
    rw [hhead] at hnot
    cases hnot
  last := by
    intro h
    have hne : stripHyphens l ≠ [] := fun he => by rw [he] at h; cases h
    have hnot := List.rdropWhile_last_not (fun c : Char => decide (c = '-')) _ hne
    rw [List.getLast?_eq_some_getLast hne] at h
    exact hnot (decide_eq_true (Option.some.inj h))

/-- **a token is a slug**, whatever the text and its lower case -/
theorem slugifyToken_slug (lower : List Char → List Char) (value : List Char) :
    Slug (slugifyToken lower value) := by
  apply stripHyphens_slug
  · intro c hc
    obtain rfl | ⟨hc, -⟩ := mem_subRuns hc
    · exact .inr rfl
    · obtain rfl | ⟨-, halnum⟩ := mem_subRuns hc
      · exact .inr rfl
      · exact .inl (by simpa using halnum)
  · exact (subRuns_hyphens _ false).1

/-- **and so is a base**, which is not empty and no longer than its limit -/
theorem trimBase_slug {base : List Char} (h : Slug base) {maxLen : Nat} (hlen : 3 ≤ maxLen) :
    Slug (trimBase base maxLen) ∧ trimBase base maxLen ≠ [] ∧
      (trimBase base maxLen).length ≤ maxLen := by
  have hcut : base.take maxLen <:+: base := (List.take_prefix _ _).isInfix
  have hslug : Slug (stripHyphens (base.take maxLen)) :=
    stripHyphens_slug (fun c hc => h.chars c (hcut.subset hc)) ( List.IsChain.infix h.single hcut)
  have hshort : (stripHyphens (base.take maxLen)).length ≤ maxLen := by
    have hle := (isInfix_stripHyphens (base.take maxLen)).length_le
    rw [List.length_take] at hle
    omega
  unfold trimBase
  dsimp only
  split
  · refine ⟨⟨forall_mem_of_all (by decide), by decide, by decide, by decide⟩, by decide, hlen⟩
  · rename_i hne
    exact ⟨hslug, hne, hshort⟩

/-! ## components -/

/-- a slug is one word, or a word and a hyphen before a shorter slug -/
theorem Slug.components {l : List Char} (h : Slug l) (hne : l ≠ []) :
    ∀ part ∈ l.splitOn '-', part ≠ [] := by
  generalize hn : l.length = n
  induction n using Nat.strongRecOn generalizing l with
  | _ n ih =>
    by_cases hmem : '-' ∈ l
    · obtain ⟨word, rest, rfl, hword⟩ := List.eq_append_cons_of_mem hmem
      rw [List.splitOn_append_cons_self_of_not_mem hword]
      have hrest : rest ≠ [] := by
        rintro rfl
        exact h.last List.getLast?_concat
      have hchain : ('-' :: rest).IsChain fun a b => ¬ (a = '-' ∧ b = '-') :=
        h.single.suffix (List.suffix_append word _)
      have hslug : Slug rest := by
        refine ⟨fun c hc => h.chars c ?_, ?_, ?_, ?_⟩
        · exact List.mem_append_right word (List.mem_cons_of_mem _ hc)
        · exact List.isChain_of_isChain_cons hchain
        · intro hhead
          exact (List.isChain_cons.mp hchain).1 '-' hhead ⟨rfl, rfl⟩
        · intro hlast
          apply h.last
          rw [List.getLast?_append, List.getLast?_cons, hlast]
          rfl
      intro part hpart
      obtain rfl | hpart := List.mem_cons.mp hpart
      · rintro rfl
        exact h.head rfl
      · refine ih rest.length ?_ hslug hrest rfl part hpart
        rw [← hn, List.length_append, List.length_cons]
        omega
    · rw [List.splitOn_eq_singleton hmem]
      intro part hpart
      rw [List.mem_singleton.mp hpart]
      exact hne

/-! ## suffixes -/

theorem generateSuffix_alnum {n : Nat} (choices : Fin n → Fin 36) :
    (∀ c ∈ generateSuffix choices, isLowerAlnum c = true) ∧
      (generateSuffix choices).length = n := by
  have hbase : ∀ c ∈ base36, isLowerAlnum c = true := forall_mem_of_all (by decide)
  unfold generateSuffix
  refine ⟨?_, List.length_ofFn⟩
  intro c hc
  obtain ⟨i, rfl⟩ := List.mem_ofFn.mp hc
  exact hbase _ (List.get_mem _ _)

/-! ## the names -/

theorem Slug.head_alnum {l : List Char} (h : Slug l) (hne : l ≠ []) :
    l.head?.any isLowerAlnum = true := by
  obtain ⟨c, rest, rfl⟩ := List.exists_cons_of_ne_nil hne
  obtain halnum | rfl := h.chars c List.mem_cons_self
  · exact halnum
  · exact absurd rfl h.head

/-- a base and a suffix are a label -/
theorem isValidDnsLabel_of {base suffix : List Char}
    (hbase : ∀ c ∈ base, isLowerAlnum c = true ∨ c = '-')
    (hhead : base.head?.any isLowerAlnum = true) (hsuffix : ∀ c ∈ suffix, isLowerAlnum c = true)
    (hne : suffix ≠ []) (hlen : (base ++ '-' :: suffix).length ≤ 63) :
    isValidDnsLabel (base ++ '-' :: suffix) = true := by
  have hfirst : (base ++ '-' :: suffix).head?.any isLowerAlnum = true := by
    cases base with
    | nil => cases hhead
    | cons c base => exact hhead
  have hlast : (base ++ '-' :: suffix).getLast?.any isLowerAlnum = true := by
    rw [List.getLast?_append, List.getLast?_cons, List.getLast?_eq_some_getLast hne]
    exact hsuffix _ (List.getLast_mem hne)
  have hall : (base ++ '-' :: suffix).all (fun c => isLowerAlnum c || c == '-') = true := by
    rw [List.all_eq_true]
    intro c hc
    rw [Bool.or_eq_true, beq_iff_eq]
    obtain hc | hc := List.mem_append.mp hc
    · exact hbase c hc
    · obtain rfl | hc := List.mem_cons.mp hc
      · exact .inr rfl
      · exact .inl (hsuffix c hc)
  unfold isValidDnsLabel isHyphenated
  rw [hfirst, hlast, hall, decide_eq_true hlen]
  rfl

/-- what a generated name has to be -/
def Legal (maxLen : Nat) (suffix name : List Char) : Prop :=
  isValidDnsLabel name = true ∧ name.length ≤ maxLen ∧
    ∃ base, name = base ++ '-' :: suffix ∧ ∀ part ∈ base.splitOn '-', part ≠ []

theorem legal_name (lower : List Char → List Char) (productName : List Char)
    (choices : Fin nameSuffixLen → Fin 36) :
    ∃ name, generateDeploymentName lower productName none choices = .ok name ∧
      Legal 27 (generateSuffix choices) name := by
  obtain ⟨hbase, hne, hlen⟩ := trimBase_slug (slugifyToken_slug lower productName)
    (show 3 ≤ nameBaseMaxLen by decide)
  obtain ⟨hsuffix, hslen⟩ := generateSuffix_alnum choices
  have hsne : generateSuffix choices ≠ [] := List.ne_nil_of_length_eq_add_one hslen
  unfold generateDeploymentName
  generalize trimBase (slugifyToken lower productName) nameBaseMaxLen = base at *
  have hmax : (base ++ '-' :: generateSuffix choices).length ≤ maxNameLen := by
    rw [List.length_append, List.length_cons, hslen]
    unfold nameBaseMaxLen maxNameLen nameSuffixLen at *
    omega
  have hvalid : isValidDnsLabel (base ++ '-' :: generateSuffix choices) = true :=
    isValidDnsLabel_of hbase.chars (hbase.head_alnum hne) hsuffix hsne (hmax.trans (by decide))
  refine ⟨_, if_neg ?_, hvalid, hmax, base, rfl, hbase.components hne⟩
  rw [hvalid, not_or]
  exact ⟨Nat.not_lt.mpr hmax, Bool.noConfusion⟩

theorem legal_namespace (lower : List Char → List Char) (productName userEmail : List Char)
    (choices : Fin nsSuffixLen → Fin 36) :
    ∃ name, generateDeploymentNamespace lower productName userEmail none choices = .ok name ∧
      Legal 41 (generateSuffix choices) name := by
  obtain ⟨hproduct, hpne, hplen⟩ := trimBase_slug (slugifyToken_slug lower productName)
    (show 3 ≤ nsProductMaxLen by decide)
  obtain ⟨hlocal, hlne, hllen⟩ := trimBase_slug
    (slugifyToken_slug lower (userEmail.takeWhile (· ≠ '@'))) (show 3 ≤ nsEmailMaxLen by decide)
  obtain ⟨hsuffix, hslen⟩ := generateSuffix_alnum choices
  have hsne : generateSuffix choices ≠ [] := List.ne_nil_of_length_eq_add_one hslen
  unfold generateDeploymentNamespace
  generalize trimBase (slugifyToken lower productName) nsProductMaxLen = product at *
  generalize trimBase (slugifyToken lower (userEmail.takeWhile (· ≠ '@'))) nsEmailMaxLen =
    localPart at *
  have hsplit : product ++ '-' :: (localPart ++ '-' :: generateSuffix choices) =
      (product ++ '-' :: localPart) ++ '-' :: generateSuffix choices := by
    rw [List.append_assoc, List.cons_append]
  have hmax : (product ++ '-' :: (localPart ++ '-' :: generateSuffix choices)).length ≤
      maxNamespaceLen := by
    rw [List.length_append, List.length_cons, List.length_append, List.length_cons, hslen]
    unfold maxNamespaceLen nsProductMaxLen nsEmailMaxLen nsSuffixLen at *
    omega
  have hchars : ∀ c ∈ product ++ '-' :: localPart, isLowerAlnum c = true ∨ c = '-' := by
    intro c hc
    obtain hc | hc := List.mem_append.mp hc
    · exact hproduct.chars c hc
    · obtain rfl | hc := List.mem_cons.mp hc
      · exact .inr rfl
      · exact hlocal.chars c hc
  have hhead : (product ++ '-' :: localPart).head?.any isLowerAlnum = true := by
    rw [List.head?_append_of_ne_nil _ hpne]
    exact hproduct.head_alnum hpne
  have hvalid :
      isValidDnsLabel (product ++ '-' :: (localPart ++ '-' :: generateSuffix choices)) = true := by
    rw [hsplit] at hmax ⊢
    exact isValidDnsLabel_of hchars hhead hsuffix hsne (hmax.trans (by decide))
  refine ⟨_, if_neg ?_, hvalid, hmax, _, hsplit, ?_⟩
  · rw [hvalid, not_or]
    exact ⟨Nat.not_lt.mpr hmax, Bool.noConfusion⟩
  · rw [List.splitOn_append_cons_self]
    intro part hpart
    obtain hpart | hpart := List.mem_append.mp hpart
    · exact hproduct.components hpne part hpart
    · exact hlocal.components hlne part hpart

/-- **generated names are legal**, for every product name and e-mail address -/
theorem names_legal (lower : List Char → List Char) (productName userEmail : List Char)
    (choices : Fin nameSuffixLen → Fin 36) (choices' : Fin nsSuffixLen → Fin 36) :
    (∃ name, generateDeploymentName lower productName none choices = .ok name ∧
      Legal 27 (generateSuffix choices) name) ∧
    ∃ name, generateDeploymentNamespace lower productName userEmail none choices' = .ok name ∧
      Legal 41 (generateSuffix choices') name :=
  ⟨legal_name lower productName choices, legal_namespace lower productName userEmail choices'⟩

end Freepod.Naming
