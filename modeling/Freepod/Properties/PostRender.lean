import Freepod.Platform.PostRender
import Freepod.Base.Refuse

/-!
# A stopped render runs nothing

The gate looks for a pod template by its shape, and the stopped step goes by the document's kind:
the two read and write different places of a document, so each finds what it looked for after the
other.

* `Holds`: where a document keeps its pod template; `Holds.put` puts another in its place.
* `rewrite_again`, `Stops.again`: a document that went through either step comes out of it the same.
* `Halted`: what a stopped render makes of one document.
* `stopped_runs_nothing`: the whole stream.  `stopped_daemonSet`: a kind that is not stopped.
-/

namespace Freepod.PostRender
open Base

variable {py : Python} {gate doc doc' : Json} {annotations : List (String × String)}
variable {stopped : Stopped} {fields spec pod pod' template template' : Fields} {value : Json}
variable {path : List String} {key kind : String}

/-! ## Dictionaries -/

theorem asDict_eq_ok : asDict value = .ok fields ↔ value = .obj fields := by
  cases value with
  | obj f =>
    show Except.ok f = .ok fields ↔ _
    simp
  | _ => exact ⟨fun h => (nomatch h), fun h => (nomatch h)⟩

@[simp] theorem asDict_obj : asDict (.obj fields) = .ok fields := rfl

@[simp] theorem orEmpty_none : orEmpty none = .obj [] := rfl

@[simp] theorem orEmpty_obj : orEmpty (some (.obj fields)) = .obj fields := by
  cases fields with
  | nil => rfl
  | cons field fields => rfl

/-- a dictionary or nothing, of what may be a dictionary -/
theorem of_orEmpty {o : Option Json} (h : orEmpty o = .obj fields) :
    o = some (.obj fields) ∨ (fields = [] ∧ ∀ f, o = some (.obj f) → f = []) := by
  cases o with
  | none =>
    cases h
    exact .inr ⟨rfl, fun f h => (nomatch h)⟩
  | some value =>
    replace h : (if value.truthy = true then value else .obj []) = .obj fields := h
    by_cases htruthy : value.truthy = true
    · rw [if_pos htruthy] at h
      exact .inl (congrArg some h)
    · rw [if_neg htruthy] at h
      cases h
      refine .inr ⟨rfl, fun f hf => ?_⟩
      obtain rfl := Option.some.inj hf
      cases f with
      | nil => rfl
      | cons field f => exact absurd rfl htruthy

theorem get?_setKey {k : String} :
    (Json.obj (setKey key value fields)).get? k =
      if k = key then some value else (Json.obj fields).get? k := lookup_setKey key k value fields

@[simp] theorem lookup_setKey_self : (setKey key value fields).lookup key = some value := by
  rw [lookup_setKey, if_pos rfl]

theorem lookup_setKey_ne {k : String} (h : k ≠ key) :
    (setKey key value fields).lookup k = fields.lookup k := by
  rw [lookup_setKey, if_neg h]

theorem hasKind_setKey (h : key ≠ "kind") :
    hasKind (.obj (setKey key value fields)) kind = hasKind (.obj fields) kind := by
  unfold hasKind
  rw [get?_setKey, if_neg h.symm]

theorem hasKind_unique {k : String} (h : hasKind doc kind = true) (hne : kind ≠ k) :
    hasKind doc k = false := by
  unfold hasKind at h ⊢
  split at h
  · rename_i name hk
    rw [eq_of_beq h]
    exact beq_false_of_ne hne
  · cases h

/-! ## Where the pod template stands -/

/-- a template holds the spec of a pod -/
structure IsTemplate (template pod : Fields) : Prop where
  spec : template.lookup "spec" = some (.obj pod)
  containers : (pod.lookup "containers").isSome = true

theorem templateOf_eq_some {o : Option Json} :
    templateOf o = some (template, pod) ↔ o = some (.obj template) ∧ IsTemplate template pod := by
  constructor
  · intro h
    unfold templateOf at h
    split at h
    · split at h
      · split at h
        · rename_i hspec hcontainers
          obtain ⟨rfl, rfl⟩ := Prod.mk.inj (Option.some.inj h)
          exact ⟨rfl, hspec, hcontainers⟩
        · cases h
      · cases h
    · cases h
  · rintro ⟨rfl, hspec, hcontainers⟩
    simp only [templateOf, hspec, if_pos hcontainers]

/-- a document keeps its pod template at a path -/
inductive Holds : Json → List String → Fields → Fields → Prop
  | pod (template pod : Fields) (hkind : hasKind (.obj template) "Pod" = true)
      (ht : IsTemplate template pod) : Holds (.obj template) [] template pod
  | workload (fields spec template pod : Fields) (hkind : hasKind (.obj fields) "Pod" = false)
      (hspec : fields.lookup "spec" = some (.obj spec)) (hjob : spec.lookup "jobTemplate" = none)
      (htemplate : spec.lookup "template" = some (.obj template)) (ht : IsTemplate template pod) :
      Holds (.obj fields) ["spec", "template"] template pod
  | cronJob (fields spec job jobSpec template pod : Fields)
      (hkind : hasKind (.obj fields) "Pod" = false)
      (hspec : fields.lookup "spec" = some (.obj spec))
      (hjob : spec.lookup "jobTemplate" = some (.obj job))
      (hjobSpec : job.lookup "spec" = some (.obj jobSpec))
      (htemplate : jobSpec.lookup "template" = some (.obj template)) (ht : IsTemplate template pod) :
      Holds (.obj fields) ["spec", "jobTemplate", "spec", "template"] template pod

theorem podTemplate_obj (fields : Fields) : podTemplate (.obj fields) =
    if hasKind (.obj fields) "Pod" = true then
      .ok ((templateOf (some (.obj fields))).map fun t => ([], t))
    else (templateAt fields >>= fun found =>
      pure ((templateOf found.2).map fun t => (found.1, t))) := rfl

/-- **the template that is found is the one the document keeps** -/
theorem podTemplate_eq_some :
    podTemplate doc = .ok (some (path, template, pod)) ↔ Holds doc path template pod := by
  constructor
  · intro h
    cases doc with
    | obj fields =>
      rw [podTemplate_obj] at h
      split at h
      · rename_i hkind
        obtain ⟨⟨t, p⟩, ht, hp⟩ := Option.map_eq_some_iff.mp (Except.ok.inj h)
        cases hp
        obtain ⟨hdoc, his⟩ := templateOf_eq_some.mp ht
        cases hdoc
        exact .pod _ _ hkind his
      · rename_i hkind
        rw [Bool.not_eq_true] at hkind
        obtain ⟨⟨path', found⟩, hat, h⟩ := bind_eq_ok.mp h
        obtain ⟨⟨t, p⟩, ht, hp⟩ := Option.map_eq_some_iff.mp (pure_eq_ok.mp h)
        cases hp
        obtain ⟨hfound, his⟩ := templateOf_eq_some.mp ht
        unfold templateAt at hat
        obtain ⟨spec, hspec, hat⟩ := bind_eq_ok.mp hat
        obtain hspec | ⟨rfl, -⟩ := of_orEmpty (asDict_eq_ok.mp hspec)
        · split at hat
          · rename_i jobTemplate hjob
            obtain ⟨job, hjobDict, hat⟩ := bind_eq_ok.mp hat
            obtain ⟨jobSpec, hjobSpec, hat⟩ := bind_eq_ok.mp hat
            obtain ⟨rfl, htemplate⟩ := Prod.mk.inj (pure_eq_ok.mp hat)
            obtain hjobSpec | ⟨rfl, -⟩ := of_orEmpty (asDict_eq_ok.mp hjobSpec)
            · obtain hjobDict | ⟨rfl, -⟩ := of_orEmpty (asDict_eq_ok.mp hjobDict)
              · obtain rfl := Option.some.inj hjobDict
                exact .cronJob _ _ _ _ _ _ hkind hspec hjob hjobSpec (htemplate.trans hfound) his
              · cases hjobSpec
            · cases htemplate.trans hfound
          · rename_i hjob
            obtain ⟨rfl, htemplate⟩ := Prod.mk.inj (pure_eq_ok.mp hat)
            exact .workload _ _ _ _ hkind hspec hjob (htemplate.trans hfound) his
        · obtain ⟨-, htemplate⟩ := Prod.mk.inj (pure_eq_ok.mp hat)
          cases htemplate.trans hfound
    | _ => cases h
  · intro h
    cases h with
    | pod template pod hkind ht =>
      rw [podTemplate_obj, if_pos hkind, templateOf_eq_some.mpr ⟨rfl, ht⟩]
      rfl
    | workload fields spec template pod hkind hspec hjob htemplate ht =>
      have hat : templateAt fields = .ok (["spec", "template"], some (.obj template)) := by
        simp [templateAt, hspec, hjob, htemplate, bind, Except.bind, pure, Except.pure]
      rw [podTemplate_obj, hkind, if_neg Bool.false_ne_true, hat]
      show Except.ok ((templateOf (some (.obj template))).map _) = _
      rw [templateOf_eq_some.mpr ⟨rfl, ht⟩]
      rfl
    | cronJob fields spec job jobSpec template pod hkind hspec hjob hjobSpec htemplate ht =>
      have hat : templateAt fields =
          .ok (["spec", "jobTemplate", "spec", "template"], some (.obj template)) := by
        simp [templateAt, hspec, hjob, hjobSpec, htemplate, bind, Except.bind, pure, Except.pure]
      rw [podTemplate_obj, hkind, if_neg Bool.false_ne_true, hat]
      show Except.ok ((templateOf (some (.obj template))).map _) = _
      rw [templateOf_eq_some.mpr ⟨rfl, ht⟩]
      rfl

/-- another template in the place of the one a document keeps -/
theorem Holds.put (h : Holds doc path template pod) (ht : IsTemplate template' pod')
    (hkind : template'.lookup "kind" = template.lookup "kind") :
    Holds (put (.obj template') path doc) path template' pod' := by
  cases h with
  | pod template pod hpod _ =>
    refine .pod _ _ ?_ ht
    have hget : (Json.obj template').get? "kind" = (Json.obj template).get? "kind" := hkind
    show hasKind (.obj template') "Pod" = true
    unfold hasKind
    rw [hget]
    exact hpod
  | workload fields spec template pod hnot hspec hjob htemplate _ =>
    refine .workload _ (setKey "template" (.obj template') spec) _ _ ?_ ?_ ?_ ?_ ht
    · rw [hasKind_setKey (by decide)]
      exact hnot
    · rw [hspec]
      exact lookup_setKey_self
    · rw [lookup_setKey_ne (by decide)]
      exact hjob
    · exact lookup_setKey_self
  | cronJob fields spec job jobSpec template pod hnot hspec hjob hjobSpec htemplate _ =>
    refine .cronJob _ (setKey "jobTemplate" (.obj (setKey "spec"
      (.obj (setKey "template" (.obj template') jobSpec)) job)) spec)
      (setKey "spec" (.obj (setKey "template" (.obj template') jobSpec)) job)
      (setKey "template" (.obj template') jobSpec) _ _ ?_ ?_ ?_ ?_ ?_ ht
    · rw [hasKind_setKey (by decide)]
      exact hnot
    · simp [PostRender.put, hspec, hjob, hjobSpec]
    · exact lookup_setKey_self
    · exact lookup_setKey_self
    · exact lookup_setKey_self

/-- the template a document keeps, put in its own place -/
theorem Holds.put_self (h : Holds doc path template pod) :
    PostRender.put (.obj template) path doc = doc := by
  cases h with
  | pod template pod hpod _ => rfl
  | workload fields spec template pod hnot hspec hjob htemplate _ =>
    show Json.obj (setKey "spec" (PostRender.put _ _ ((fields.lookup "spec").getD .null)) fields) = _
    rw [hspec]
    show Json.obj (setKey "spec" (.obj (setKey "template" _ spec)) fields) = _
    rw [show PostRender.put (.obj template) [] ((spec.lookup "template").getD .null) =
      .obj template from rfl, setKey_of_lookup htemplate, setKey_of_lookup hspec]
  | cronJob fields spec job jobSpec template pod hnot hspec hjob hjobSpec htemplate _ =>
    simp only [PostRender.put, hspec, hjob, hjobSpec, Option.getD_some, setKey_of_lookup htemplate,
      setKey_of_lookup hjobSpec, setKey_of_lookup hjob, setKey_of_lookup hspec]

/-- what a rewrite leaves of the fields of a document -/
theorem Holds.get?_put (h : Holds doc path template pod) {k : String} (hspec : k ≠ "spec")
    (hsame : template'.lookup k = template.lookup k) :
    (PostRender.put (.obj template') path doc).get? k = doc.get? k := by
  cases h with
  | pod template pod hpod _ => exact hsame
  | workload fields spec template pod _ _ _ _ _ => exact lookup_setKey_ne hspec
  | cronJob fields spec job jobSpec template pod _ _ _ _ _ _ => exact lookup_setKey_ne hspec

theorem Holds.isTemplate (h : Holds doc path template pod) : IsTemplate template pod := by
  cases h with
  | pod template pod _ ht => exact ht
  | workload fields spec template pod _ _ _ _ ht => exact ht
  | cronJob fields spec job jobSpec template pod _ _ _ _ _ ht => exact ht

/-! ## The gate and the annotation -/

theorem mapM_asDict {items : List Json} :
    (∃ l, items.mapM asDict = .ok l) ↔ ∀ item ∈ items, ∃ f, item = .obj f := by
  induction items with
  | nil => exact ⟨fun _ item h => (List.not_mem_nil h).elim, fun _ => ⟨[], rfl⟩⟩
  | cons item items ih =>
    rw [List.forall_mem_cons, ← ih]
    constructor
    · rintro ⟨l, h⟩
      obtain ⟨f, l, hf, hl, -⟩ := List.forall₂_cons_left_iff.mp (mapM_eq_ok.mp h)
      exact ⟨⟨f, asDict_eq_ok.mp hf⟩, l, mapM_eq_ok.mpr hl⟩
    · rintro ⟨⟨f, rfl⟩, l, hl⟩
      exact ⟨f :: l, mapM_eq_ok.mpr (.cons rfl (mapM_eq_ok.mp hl))⟩

/-- what `render` is given to inject -/
structure Gate (gate : Json) : Prop where
  dict : ∃ f, gate = .obj f
  named : isGate gate = true

theorem gate_gateContainer (image : String) (deadlineSeconds : Int) :
    Gate (gateContainer image deadlineSeconds) := by
  refine ⟨⟨_, rfl⟩, ?_⟩
  show (containerName == containerName) = true
  exact beq_self_eq_true _

/-- **the gate stands first, and once** -/
theorem inject_again (hgate : Gate gate) (h : inject pod gate = .ok pod') :
    (∃ l, pod' = setKey "initContainers" l pod) ∧ inject pod' gate = .ok pod' := by
  unfold inject at h
  obtain ⟨containers, hitems, h⟩ := bind_eq_ok.mp h
  obtain ⟨l, hl, h⟩ := bind_eq_ok.mp h
  obtain rfl := pure_eq_ok.mp h
  refine ⟨⟨_, rfl⟩, ?_⟩
  have hall := mapM_asDict.mp ⟨l, hl⟩
  have hdicts : ∀ item ∈ gate :: containers.filter (!isGate ·), ∃ f, item = .obj f := by
    intro item hitem
    rcases List.mem_cons.mp hitem with rfl | hitem
    · exact hgate.dict
    · exact hall item (List.mem_of_mem_filter hitem)
  obtain ⟨l', hl'⟩ := mapM_asDict.mpr hdicts
  have hfilter : (gate :: containers.filter (!isGate ·)).filter (!isGate ·) =
      containers.filter (!isGate ·) := by
    rw [List.filter_cons_of_neg (by simp [hgate.named]), List.filter_filter]
    congr 1
    funext item
    exact Bool.and_self _
  unfold inject
  rw [lookup_setKey_self]
  refine bind_eq_ok.mpr ⟨gate :: containers.filter (!isGate ·), rfl, ?_⟩
  refine bind_eq_ok.mpr ⟨l', hl', pure_eq_ok.mpr ?_⟩
  rw [hfilter]
  exact setKey_of_lookup lookup_setKey_self

theorem lookup_assignAll {items : List (String × String)} (h : (items.map Prod.fst).Nodup)
    {item : String × String} (hi : item ∈ items) :
    (assignAll fields items).lookup item.1 = some (.str item.2) := by
  unfold assignAll
  induction items generalizing fields with
  | nil => cases hi
  | cons i items ih =>
    rw [List.map_cons, List.nodup_cons] at h
    rcases List.mem_cons.mp hi with rfl | hi
    · show ((items.foldl _ (setKey item.1 (.str item.2) fields)).lookup item.1) = _
      have hkeep : ∀ (l : List (String × String)) (f : Fields), item.1 ∉ l.map Prod.fst →
          (l.foldl (fun f i => setKey i.1 (Json.str i.2) f) f).lookup item.1 = f.lookup item.1 := by
        intro l
        induction l with
        | nil => exact fun f _ => rfl
        | cons i l ihl =>
          intro f hnot
          rw [List.map_cons, List.mem_cons, not_or] at hnot
          rw [List.foldl_cons, ihl _ hnot.2, lookup_setKey_ne hnot.1]
      rw [hkeep _ _ h.1, lookup_setKey_self]
    · exact ih h.2 hi

/-- assigned again, nothing changes -/
theorem assignAll_of_lookup {items : List (String × String)}
    (h : ∀ item ∈ items, fields.lookup item.1 = some (.str item.2)) :
    assignAll fields items = fields := by
  unfold assignAll
  induction items with
  | nil => rfl
  | cons item items ih =>
    rw [List.foldl_cons, setKey_of_lookup (h item List.mem_cons_self)]
    exact ih fun i hi => h i (List.mem_cons_of_mem _ hi)

theorem annotate_again (hnodup : (annotations.map Prod.fst).Nodup)
    (h : annotate template annotations = .ok template') :
    (∃ m, template' = setKey "metadata" m template) ∧ annotate template' annotations = .ok template' := by
  unfold annotate at h
  obtain ⟨metadata, hmetadata, h⟩ := bind_eq_ok.mp h
  split at h
  · rename_i old hold
    obtain rfl := pure_eq_ok.mp h
    refine ⟨⟨_, rfl⟩, ?_⟩
    unfold annotate
    rw [lookup_setKey_self, orEmpty_obj]
    refine bind_eq_ok.mpr ⟨_, rfl, ?_⟩
    rw [lookup_setKey_self, orEmpty_obj]
    refine pure_eq_ok.mpr ?_
    rw [assignAll_of_lookup fun item hi => lookup_assignAll hnodup hi,
      setKey_of_lookup lookup_setKey_self, setKey_of_lookup lookup_setKey_self]
  · cases h

/-! ## The rewrite of a template -/

theorem rewrite_eq_ok {touched : Bool} : rewrite doc gate annotations = .ok (doc', touched) ↔
    (podTemplate doc = .ok none ∧ doc' = doc ∧ touched = false) ∨
    ∃ path template pod template', Holds doc path template pod ∧
      rewriteTemplate gate annotations template pod = .ok template' ∧
      doc' = put (.obj template') path doc ∧ touched = true := by
  unfold rewrite
  rw [bind_eq_ok]
  constructor
  · rintro ⟨found, hfound, h⟩
    cases found with
    | none =>
      obtain ⟨rfl, rfl⟩ := Prod.mk.inj (pure_eq_ok.mp h)
      exact .inl ⟨hfound, rfl, rfl⟩
    | some found =>
      obtain ⟨path, template, pod⟩ := found
      obtain ⟨template', ht, h⟩ := bind_eq_ok.mp h
      obtain ⟨rfl, rfl⟩ := Prod.mk.inj (pure_eq_ok.mp h)
      exact .inr ⟨path, template, pod, template', podTemplate_eq_some.mp hfound, ht, rfl, rfl⟩
  · rintro (⟨hnone, rfl, rfl⟩ | ⟨path, template, pod, template', hholds, ht, rfl, rfl⟩)
    · exact ⟨none, hnone, rfl⟩
    · exact ⟨some (path, template, pod), podTemplate_eq_some.mpr hholds,
        bind_eq_ok.mpr ⟨template', ht, rfl⟩⟩

/-- **a template that was rewritten is rewritten to itself**, and nothing but its spec and its
metadata was -/
theorem rewriteTemplate_again (hgate : Gate gate) (hnodup : (annotations.map Prod.fst).Nodup)
    (hcontainers : (pod.lookup "containers").isSome = true)
    (h : rewriteTemplate gate annotations template pod = .ok template') :
    ∃ pod', IsTemplate template' pod' ∧
      rewriteTemplate gate annotations template' pod' = .ok template' ∧
      ∀ k, k ≠ "spec" → k ≠ "metadata" → template'.lookup k = template.lookup k := by
  obtain ⟨pod', hpod, h⟩ := bind_eq_ok.mp h
  obtain ⟨⟨l, hl⟩, hagain⟩ := inject_again hgate hpod
  have hcontainers' : (pod'.lookup "containers").isSome = true := by
    rw [hl, lookup_setKey_ne (by decide)]
    exact hcontainers
  by_cases hnone : annotations = []
  · rw [if_pos hnone] at h
    obtain rfl := pure_eq_ok.mp h
    refine ⟨pod', ⟨lookup_setKey_self, hcontainers'⟩, ?_, fun k hk _ => lookup_setKey_ne hk⟩
    refine bind_eq_ok.mpr ⟨pod', hagain, ?_⟩
    rw [if_pos hnone, setKey_of_lookup lookup_setKey_self]
    rfl
  · rw [if_neg hnone] at h
    obtain ⟨⟨m, rfl⟩, hannotated⟩ := annotate_again hnodup h
    have hspec : (setKey "metadata" m (setKey "spec" (.obj pod') template)).lookup "spec" =
        some (.obj pod') := by
      rw [lookup_setKey_ne (by decide), lookup_setKey_self]
    refine ⟨pod', ⟨hspec, hcontainers'⟩, ?_, fun k hk hm => ?_⟩
    · refine bind_eq_ok.mpr ⟨pod', hagain, ?_⟩
      rw [if_neg hnone, setKey_of_lookup hspec]
      exact hannotated
    · rw [lookup_setKey_ne hm, lookup_setKey_ne hk]

/-- a document that a rewrite leaves as it is -/
inductive Rewritten (gate : Json) (annotations : List (String × String)) (doc : Json) :
    Bool → Prop
  | untouched (h : podTemplate doc = .ok none) : Rewritten gate annotations doc false
  | touched (path : List String) (template pod : Fields) (h : Holds doc path template pod)
      (ht : rewriteTemplate gate annotations template pod = .ok template) :
      Rewritten gate annotations doc true

variable {touched changed : Bool}

theorem Rewritten.rewrite_eq (h : Rewritten gate annotations doc touched) :
    rewrite doc gate annotations = .ok (doc, touched) := by
  cases h with
  | untouched h => exact rewrite_eq_ok.mpr (.inl ⟨h, rfl, rfl⟩)
  | touched path template pod h ht =>
    exact rewrite_eq_ok.mpr (.inr ⟨path, template, pod, template, h, ht, h.put_self.symm, rfl⟩)

/-- **a rewrite leaves what it made as it is**, and of a document it changes a pod template only -/
theorem rewrite_again (hgate : Gate gate) (hnodup : (annotations.map Prod.fst).Nodup)
    (h : rewrite doc gate annotations = .ok (doc', touched)) :
    Rewritten gate annotations doc' touched ∧ (touched = false → doc' = doc) ∧
      ∀ k, k ≠ "spec" → k ≠ "metadata" → doc'.get? k = doc.get? k := by
  obtain ⟨hnone, rfl, rfl⟩ | ⟨path, template, pod, template', hholds, ht, rfl, rfl⟩ :=
    rewrite_eq_ok.mp h
  · exact ⟨.untouched hnone, fun _ => rfl, fun _ _ _ => rfl⟩
  · obtain ⟨pod', his, hagain, hkeep⟩ :=
      rewriteTemplate_again hgate hnodup hholds.isTemplate.containers ht
    have hkind := hkeep "kind" (by decide) (by decide)
    refine ⟨.touched _ _ _ (hholds.put his hkind) hagain, (fun h => nomatch h), ?_⟩
    exact fun k hs hm => hholds.get?_put hs (hkeep k hs hm)

theorem hasKind_rewrite (hgate : Gate gate) (hnodup : (annotations.map Prod.fst).Nodup)
    (h : rewrite doc gate annotations = .ok (doc', touched)) (kind : String) :
    hasKind doc' kind = hasKind doc kind := by
  obtain ⟨-, -, hkeep⟩ := rewrite_again hgate hnodup h
  unfold hasKind
  rw [hkeep "kind" (by decide) (by decide)]

/-! ## The stopped step and the templates -/

/-- the fields of a document with one of its spec's set -/
def setSpec (key : String) (value : Json) (spec fields : Fields) : Fields :=
  setKey "spec" (.obj (setKey key value spec)) fields

/-- **setting another field of the spec leaves the template where it is** -/
theorem Rewritten.setSpec (h : Rewritten gate annotations (.obj fields) touched)
    (hpod : hasKind (.obj fields) "Pod" = false)
    (hspec : asDict (orEmpty (fields.lookup "spec")) = .ok spec) (hjob : key ≠ "jobTemplate")
    (htemplate : key ≠ "template") :
    Rewritten gate annotations (.obj (setSpec key value spec fields)) touched := by
  have hkind : hasKind (.obj (PostRender.setSpec key value spec fields)) "Pod" = false := by
    unfold PostRender.setSpec
    rw [hasKind_setKey (by decide)]
    exact hpod
  have hfield : (PostRender.setSpec key value spec fields).lookup "spec" =
      some (.obj (setKey key value spec)) := lookup_setKey_self
  cases h with
  | untouched h =>
    refine .untouched ?_
    have hat : templateAt (PostRender.setSpec key value spec fields) = templateAt fields := by
      unfold templateAt
      rw [hspec, hfield, orEmpty_obj, asDict_obj]
      dsimp only [bind, Except.bind]
      rw [lookup_setKey_ne hjob.symm, lookup_setKey_ne htemplate.symm]
    rw [podTemplate_obj, hpod, if_neg Bool.false_ne_true] at h
    rw [podTemplate_obj, hkind, if_neg Bool.false_ne_true, hat]
    exact h
  | touched path template pod h ht =>
    refine .touched path template pod ?_ ht
    cases h with
    | pod template pod hkind' _ =>
      rw [hpod] at hkind'
      cases hkind'
    | workload fields spec' template pod _ hspec' hjob' htemplate' his =>
      rw [hspec', orEmpty_obj, asDict_obj] at hspec
      obtain rfl := Except.ok.inj hspec
      refine .workload _ _ _ _ hkind hfield ?_ ?_ his
      · rw [lookup_setKey_ne hjob.symm]
        exact hjob'
      · rw [lookup_setKey_ne htemplate.symm]
        exact htemplate'
    | cronJob fields spec' job jobSpec template pod _ hspec' hjob' hjobSpec htemplate' his =>
      rw [hspec', orEmpty_obj, asDict_obj] at hspec
      obtain rfl := Except.ok.inj hspec
      refine .cronJob _ _ job jobSpec _ _ hkind hfield ?_ hjobSpec htemplate' his
      rw [lookup_setKey_ne hjob.symm]
      exact hjob'

theorem setInSpec_eq_ok (h : setInSpec key value fields = .ok doc) :
    ∃ spec, asDict (orEmpty (fields.lookup "spec")) = .ok spec ∧
      doc = .obj (setSpec key value spec fields) := by
  unfold setInSpec at h
  split at h
  · rename_i spec hspec
    refine ⟨spec, ?_, (Except.ok.inj h).symm⟩
    rw [hspec, orEmpty_obj]
    rfl
  · cases h
  · rename_i hspec
    refine ⟨[], ?_, (Except.ok.inj h).symm⟩
    rw [hspec]
    rfl

theorem setInSpec_setSpec : setInSpec key value (setSpec key value spec fields) =
    .ok (.obj (setSpec key value spec fields)) := by
  unfold setInSpec
  rw [show (setSpec key value spec fields).lookup "spec" = some (.obj (setKey key value spec)) from
    lookup_setKey_self]
  show Except.ok (Json.obj (setKey "spec" (.obj (setKey key value (setKey key value spec))) _)) = _
  rw [setKey_of_lookup lookup_setKey_self]
  unfold setSpec
  rw [setKey_of_lookup lookup_setKey_self]

/-- what every answer of a list is related to, itself, the list of the answers is -/
theorem forall₂_again {α β : Type} {R : α → β → Prop} {S : β → β → Prop} {l : List α} {l' : List β}
    (h : List.Forall₂ R l l') (hS : ∀ a b, R a b → S b b) : List.Forall₂ S l' l' := by
  induction h with
  | nil => exact .nil
  | cons hab _ ih => exact .cons (hS _ _ hab) ih

/-- what every answer satisfies, given its question -/
theorem forall_mem_of_forall₂ {α β : Type} {R : α → β → Prop} {P : β → Prop} {l : List α}
    {l' : List β} (h : List.Forall₂ R l l') (hP : ∀ a b, a ∈ l → R a b → P b) : ∀ b ∈ l', P b := by
  induction h with
  | nil => exact fun b hb => (List.not_mem_nil hb).elim
  | cons hab _ ih =>
    refine List.forall_mem_cons.mpr ⟨hP _ _ List.mem_cons_self hab, ?_⟩
    exact ih fun a b ha => hP a b (List.mem_cons_of_mem _ ha)

/-! ## Rules -/

/-- the rule is one of the deployment's own hostname -/
def OwnRule (py : Python) (hostname : String) (rule : Json) : Prop :=
  ∃ fields, rule = .obj fields ∧ ruleHost py fields = py.lower hostname

/-- **what becomes of a rule** -/
theorem rerouteRule_eq_ok {hostname : String} {rule rule' : Json} :
    rerouteRule py stopped hostname rule = .ok (rule', changed) ↔
    (¬ OwnRule py hostname rule ∧ rule' = rule ∧ changed = false) ∨
    ∃ fields http paths, rule = .obj fields ∧ ruleHost py fields = py.lower hostname ∧
      asDict (orEmpty (fields.lookup "http")) = .ok http ∧
      itemsOf (http.lookup "paths") = .ok paths ∧
      ((paths = [] ∧ rule' = rule ∧ changed = false) ∨
        (paths ≠ [] ∧ changed = true ∧ ∃ paths',
          List.Forall₂ (fun p p' => reroutePath stopped p = .ok p') paths paths' ∧
          rule' = .obj (setKey "http" (.obj (setKey "paths" (.arr paths') http)) fields))) := by
  cases rule with
  | obj fields =>
    show (if ruleHost py fields ≠ py.lower hostname then Except.ok (Json.obj fields, false) else _) =
      _ ↔ _
    by_cases hown : ruleHost py fields = py.lower hostname
    · rw [if_neg (not_not.mpr hown), bind_eq_ok]
      constructor
      · rintro ⟨http, hhttp, h⟩
        obtain ⟨paths, hpaths, h⟩ := bind_eq_ok.mp h
        refine .inr ⟨fields, http, paths, rfl, hown, hhttp, hpaths, ?_⟩
        by_cases hnil : paths = []
        · rw [if_pos hnil] at h
          obtain ⟨rfl, rfl⟩ := Prod.mk.inj (pure_eq_ok.mp h)
          exact .inl ⟨hnil, rfl, rfl⟩
        · rw [if_neg hnil] at h
          obtain ⟨paths', hpaths', h⟩ := bind_eq_ok.mp h
          obtain ⟨rfl, rfl⟩ := Prod.mk.inj (pure_eq_ok.mp h)
          exact .inr ⟨hnil, rfl, paths', mapM_eq_ok.mp hpaths', rfl⟩
      · rintro (⟨hnot, -, -⟩ | ⟨f, http, paths, hf, -, hhttp, hpaths, h⟩)
        · exact absurd ⟨fields, rfl, hown⟩ hnot
        · obtain rfl := Json.obj.inj hf
          refine ⟨http, hhttp, bind_eq_ok.mpr ⟨paths, hpaths, ?_⟩⟩
          obtain ⟨hnil, rfl, rfl⟩ | ⟨hnil, rfl, paths', hpaths', rfl⟩ := h
          · rw [if_pos hnil]
            rfl
          · rw [if_neg hnil]
            exact bind_eq_ok.mpr ⟨paths', mapM_eq_ok.mpr hpaths', rfl⟩
    · rw [if_pos hown]
      have hnot : ¬ OwnRule py hostname (.obj fields) := by
        rintro ⟨f, hf, h⟩
        obtain rfl := Json.obj.inj hf
        exact hown h
      constructor
      · intro h
        obtain ⟨rfl, rfl⟩ := Prod.mk.inj (Except.ok.inj h)
        exact .inl ⟨hnot, rfl, rfl⟩
      · rintro (⟨-, rfl, rfl⟩ | ⟨f, http, paths, hf, h, -⟩)
        · rfl
        · exact absurd ⟨f, hf, h⟩ hnot
  | _ =>
    constructor
    · intro h
      obtain ⟨rfl, rfl⟩ := Prod.mk.inj (Except.ok.inj h)
      exact .inl ⟨(fun ⟨f, hf, _⟩ => nomatch hf), rfl, rfl⟩
    · rintro (⟨-, rfl, rfl⟩ | ⟨f, http, paths, hf, -⟩)
      · rfl
      · cases hf

/-- a path of a rule, rerouted to the parking Service -/
def Reroutes (stopped : Stopped) (p p' : Json) : Prop :=
  p'.get? "backend" = some stopped.backend ∧ ∀ k, k ≠ "backend" → p'.get? k = p.get? k

theorem reroutePath_again {p p' : Json} (h : reroutePath stopped p = .ok p') :
    Reroutes stopped p p' ∧ reroutePath stopped p' = .ok p' := by
  cases p with
  | obj path =>
    obtain rfl := Except.ok.inj h
    refine ⟨⟨lookup_setKey_self, fun k hk => lookup_setKey_ne hk⟩, ?_⟩
    show Except.ok (Json.obj (setKey "backend" stopped.backend (setKey _ _ path))) = _
    rw [setKey_of_lookup lookup_setKey_self]
  | _ => cases h

/-- the fields of an object in a document's field -/
def fieldOf (doc : Json) (field key : String) : Option Json :=
  (doc.get? field).bind (·.get? key)

/-- the items of a list there -/
def itemsAt (doc : Json) (field key : String) : List Json :=
  match fieldOf doc field key with
  | some (.arr items) => items
  | _ => []

/-- the same document but for one field of an object in it -/
structure SameBut (field key : String) (doc doc' : Json) : Prop where
  fields : ∀ k, k ≠ field → doc'.get? k = doc.get? k
  inner : ∀ k, k ≠ key → fieldOf doc' field k = fieldOf doc field k

theorem SameBut.rfl {field : String} : SameBut field key doc doc :=
  ⟨fun _ _ => Eq.refl _, fun _ _ => Eq.refl _⟩

theorem fieldOf_of_orEmpty {field : String} {inner : Fields} {k : String}
    (h : asDict (orEmpty (fields.lookup field)) = .ok inner) :
    fieldOf (.obj fields) field k = inner.lookup k := by
  show (fields.lookup field).bind (·.get? k) = _
  obtain h | ⟨rfl, hempty⟩ := of_orEmpty (asDict_eq_ok.mp h)
  · rw [h]
    rfl
  · cases hf : fields.lookup field with
    | none => rfl
    | some value =>
      cases value with
      | obj f =>
        obtain rfl := hempty f hf
        rfl
      | _ => rfl

/-- setting a field there changes no other -/
theorem sameBut_setKey {field : String} {inner : Fields}
    (h : asDict (orEmpty (fields.lookup field)) = .ok inner) :
    SameBut field key (.obj fields) (.obj (setKey field (.obj (setKey key value inner)) fields)) := by
  refine ⟨fun k hk => lookup_setKey_ne hk, fun k hk => ?_⟩
  rw [fieldOf_of_orEmpty h]
  show ((setKey field _ fields).lookup field).bind _ = _
  rw [lookup_setKey_self]
  exact lookup_setKey_ne hk

theorem fieldOf_setKey {field : String} {inner : Fields} :
    fieldOf (.obj (setKey field (.obj (setKey key value inner)) fields)) field key = some value := by
  show ((setKey field _ fields).lookup field).bind _ = _
  rw [lookup_setKey_self]
  exact lookup_setKey_self

/-- the rule's paths all have the parking backend, and nothing else of it changed -/
structure RuleRerouted (stopped : Stopped) (rule rule' : Json) : Prop where
  same : SameBut "http" "paths" rule rule'
  paths : List.Forall₂ (Reroutes stopped) (itemsAt rule "http" "paths")
    (itemsAt rule' "http" "paths")

/-- the items of what may be a list are those of a list, or texts -/
theorem items_of_itemsOf {o : Option Json} {items : List Json} (h : itemsOf o = .ok items) :
    o = some (.arr items) ∨ (items = [] ∧ (∀ l, o = some (.arr l) → l = [])) ∨
      (items ≠ [] ∧ (∀ l, o ≠ some (.arr l)) ∧ ∀ item ∈ items, ∃ s, item = .str s) := by
  cases o with
  | none =>
    obtain rfl := Except.ok.inj h
    exact .inr (.inl ⟨rfl, fun l h => nomatch h⟩)
  | some value =>
    unfold itemsOf at h
    simp only at h
    split at h
    · rename_i htruthy
      cases value with
      | arr l =>
        obtain rfl := Except.ok.inj h
        exact .inl rfl
      | str s =>
        obtain rfl := Except.ok.inj h
        refine .inr (.inr ⟨?_, (fun l h => nomatch h), ?_⟩)
        · intro hnil
          rw [List.map_eq_nil_iff] at hnil
          have hs : s = "" := String.toList_inj.mp hnil
          rw [hs] at htruthy
          cases htruthy
        · intro item hi
          obtain ⟨c, -, rfl⟩ := List.mem_map.mp hi
          exact ⟨_, rfl⟩
      | obj f =>
        obtain rfl := Except.ok.inj h
        refine .inr (.inr ⟨?_, (fun l h => nomatch h), ?_⟩)
        · intro hnil
          rw [List.map_eq_nil_iff] at hnil
          rw [hnil] at htruthy
          cases htruthy
        · intro item hi
          obtain ⟨field, -, rfl⟩ := List.mem_map.mp hi
          exact ⟨_, rfl⟩
      | _ => cases h
    · rename_i hfalsy
      obtain rfl := Except.ok.inj h
      refine .inr (.inl ⟨rfl, fun l hl => ?_⟩)
      obtain rfl := Option.some.inj hl
      cases l with
      | nil => rfl
      | cons a l => exact absurd rfl hfalsy

theorem itemsOf_arr (items : List Json) : itemsOf (some (.arr items)) = .ok items := by
  cases items with
  | nil => rfl
  | cons item items => rfl

/-- **a rule of the deployment's own hostname is rerouted**, any other stays, and both stay so -/
theorem rerouteRule_again {hostname : String} {rule rule' : Json}
    (h : rerouteRule py stopped hostname rule = .ok (rule', changed)) :
    (OwnRule py hostname rule → RuleRerouted stopped rule rule') ∧
      (¬ OwnRule py hostname rule → rule' = rule) ∧
      rerouteRule py stopped hostname rule' = .ok (rule', changed) := by
  obtain ⟨hnot, rfl, rfl⟩ | ⟨fields, http, paths, rfl, hown, hhttp, hpaths, hcase⟩ :=
    rerouteRule_eq_ok.mp h
  · exact ⟨fun hown => absurd hown hnot, fun _ => rfl, h⟩
  · have hrule : OwnRule py hostname (.obj fields) := ⟨fields, rfl, hown⟩
    have hitems : itemsAt (.obj fields) "http" "paths" =
        match http.lookup "paths" with
        | some (.arr items) => items
        | _ => [] := by
      unfold itemsAt
      rw [fieldOf_of_orEmpty hhttp]
    obtain ⟨rfl, rfl, rfl⟩ | ⟨hne, rfl, paths', hpaths', rfl⟩ := hcase
    · refine ⟨fun _ => ⟨.rfl, ?_⟩, fun hnot => absurd hrule hnot, h⟩
      have hnil : itemsAt (.obj fields) "http" "paths" = [] := by
        rw [hitems]
        split
        · rename_i items hl
          obtain hp | ⟨-, hp⟩ | ⟨-, hp, -⟩ := items_of_itemsOf hpaths
          · rw [hl] at hp
            cases hp
            rfl
          · exact hp items hl
          · exact absurd hl (hp items)
        · rfl
      rw [hnil]
      exact .nil
    · -- what is rerouted was a list of objects
      have harr : http.lookup "paths" = some (.arr paths) := by
        obtain hp | ⟨rfl, -⟩ | ⟨-, -, hp⟩ := items_of_itemsOf hpaths
        · exact hp
        · exact absurd rfl hne
        · cases hpaths' with
          | nil => exact absurd rfl hne
          | cons h hrest =>
            obtain ⟨s, rfl⟩ := hp _ List.mem_cons_self
            cases h
      have hne' : paths' ≠ [] := by
        intro hnil
        rw [hnil] at hpaths'
        exact hne (List.forall₂_nil_right_iff.mp hpaths')
      refine ⟨fun _ => ⟨sameBut_setKey hhttp, ?_⟩, fun hnot => absurd hrule hnot, ?_⟩
      · have hitems' : itemsAt (.obj (setKey "http" (.obj (setKey "paths" (.arr paths') http))
            fields)) "http" "paths" = paths' := by
          unfold itemsAt
          rw [fieldOf_setKey]
        rw [hitems, harr, hitems']
        exact hpaths'.imp fun p p' hp => (reroutePath_again hp).1
      · refine rerouteRule_eq_ok.mpr (.inr ⟨_, setKey "paths" (.arr paths') http, paths', rfl, ?_, ?_,
          ?_, .inr ⟨hne', rfl, paths', ?_, ?_⟩⟩)
        · unfold ruleHost
          rw [lookup_setKey_ne (by decide)]
          exact hown
        · rw [lookup_setKey_self, orEmpty_obj]
          rfl
        · rw [lookup_setKey_self]
          exact itemsOf_arr paths'
        · exact forall₂_again hpaths' fun p p' hp => (reroutePath_again hp).2
        · rw [setKey_of_lookup lookup_setKey_self, setKey_of_lookup lookup_setKey_self]

theorem eq_of_not_rerouted {hostname : String} {rule rule' : Json}
    (h : rerouteRule py stopped hostname rule = .ok (rule', false)) : rule' = rule := by
  obtain ⟨-, rfl, -⟩ | ⟨fields, http, paths, rfl, -, -, -, ⟨-, rfl, -⟩ | ⟨-, hfalse, -⟩⟩ :=
    rerouteRule_eq_ok.mp h
  · rfl
  · rfl
  · cases hfalse

theorem eq_of_none_rerouted {hostname : String} {rules : List Json} {rules' : List (Json × Bool)}
    (h : List.Forall₂ (fun rule p => rerouteRule py stopped hostname rule = .ok p) rules rules')
    (hnone : ∀ p ∈ rules', p.2 = false) : rules'.map (·.1) = rules := by
  induction h with
  | nil => rfl
  | @cons rule p rules rules' hp _ ih =>
    obtain ⟨rule', b⟩ := p
    obtain rfl : b = false := hnone _ List.mem_cons_self
    rw [List.map_cons, eq_of_not_rerouted hp, ih fun p hp => hnone p (List.mem_cons_of_mem _ hp)]

/-! ## Ingresses -/

/-- what becomes of a rule of an Ingress -/
def RuleBecomes (py : Python) (stopped : Stopped) (hostname : String) (rule rule' : Json) : Prop :=
  (OwnRule py hostname rule → RuleRerouted stopped rule rule') ∧
    (¬ OwnRule py hostname rule → rule' = rule)

/-- the rules of an Ingress, all looked at, and nothing else of it changed -/
structure IngressRerouted (py : Python) (stopped : Stopped) (doc doc' : Json) : Prop where
  same : SameBut "spec" "rules" doc doc'
  rules : ∀ hostname, stopped.hostname = some hostname → hostname ≠ "" →
    List.Forall₂ (RuleBecomes py stopped hostname) (itemsAt doc "spec" "rules")
      (itemsAt doc' "spec" "rules")

/-- **every rule of an Ingress is looked at**; looked at again, nothing changes -/
theorem rerouteIngress_again (h : rerouteIngress py stopped fields = .ok (doc', changed)) :
    (changed = false → doc' = .obj fields) ∧ IngressRerouted py stopped (.obj fields) doc' ∧
      (doc' = .obj fields ∨ ∃ spec rules, asDict (orEmpty (fields.lookup "spec")) = .ok spec ∧
        doc' = .obj (setSpec "rules" rules spec fields)) ∧
      ∃ fields', doc' = .obj fields' ∧ rerouteIngress py stopped fields' = .ok (doc', changed) := by
  have h' := h
  unfold rerouteIngress at h
  split at h
  · rename_i hnone
    obtain ⟨rfl, rfl⟩ := Prod.mk.inj (Except.ok.inj h)
    refine ⟨fun _ => rfl, ⟨.rfl, fun hostname hh _ => ?_⟩, .inl rfl, fields, rfl, h'⟩
    rw [hnone] at hh
    cases hh
  · rename_i hostname hhost
    split at h
    · rename_i hempty
      obtain ⟨rfl, rfl⟩ := Prod.mk.inj (Except.ok.inj h)
      refine ⟨fun _ => rfl, ⟨.rfl, fun name hh hne => ?_⟩, .inl rfl, fields, rfl, h'⟩
      rw [hhost] at hh
      obtain rfl := Option.some.inj hh
      exact absurd hempty hne
    · rename_i hnonempty
      obtain ⟨spec, hspec, h⟩ := bind_eq_ok.mp h
      obtain ⟨rules, hrules, h⟩ := bind_eq_ok.mp h
      obtain ⟨rules', hrules', h⟩ := bind_eq_ok.mp h
      have heach := mapM_eq_ok.mp hrules'
      have hbecomes : List.Forall₂ (RuleBecomes py stopped hostname) rules (rules'.map (·.1)) := by
        refine List.forall₂_map_right_iff.mpr (heach.imp fun rule p hp => ?_)
        obtain ⟨hown, hother, -⟩ := rerouteRule_again hp
        exact ⟨hown, hother⟩
      have hitems : itemsAt (.obj fields) "spec" "rules" =
          match spec.lookup "rules" with
          | some (.arr items) => items
          | _ => [] := by
        unfold itemsAt
        rw [fieldOf_of_orEmpty hspec]
      by_cases hany : rules'.any (·.2) = true
      · rw [if_pos hany] at h
        obtain ⟨rfl, rfl⟩ := Prod.mk.inj (pure_eq_ok.mp h)
        -- a rule that was rerouted is an item of a list
        have harr : spec.lookup "rules" = some (.arr rules) := by
          obtain hr | ⟨rfl, -⟩ | ⟨-, -, hr⟩ := items_of_itemsOf hrules
          · exact hr
          · cases heach
            cases hany
          · obtain ⟨p, hp, htrue⟩ := List.any_eq_true.mp hany
            have hfalse : ∀ p ∈ rules', p.2 = false := by
              refine forall_mem_of_forall₂ heach fun rule p hmem hp => ?_
              obtain ⟨s, rfl⟩ := hr rule hmem
              obtain rfl := Except.ok.inj hp
              rfl
            rw [hfalse p hp] at htrue
            cases htrue
        have hagain : (rules'.map (·.1)).mapM (rerouteRule py stopped hostname) = .ok rules' := by
          refine mapM_eq_ok.mpr (List.forall₂_map_left_iff.mpr ?_)
          exact forall₂_again heach fun rule p hp => (rerouteRule_again hp).2.2
        refine ⟨(fun hf => nomatch hf), ⟨sameBut_setKey hspec, fun name hh _ => ?_⟩,
          .inr ⟨spec, _, hspec, rfl⟩, _, rfl, ?_⟩
        · rw [hhost] at hh
          obtain rfl := Option.some.inj hh
          rw [hitems, harr]
          unfold itemsAt
          rw [fieldOf_setKey]
          exact hbecomes
        · unfold rerouteIngress
          rw [hhost]
          simp only
          rw [if_neg hnonempty, lookup_setKey_self, orEmpty_obj]
          refine bind_eq_ok.mpr ⟨_, rfl, bind_eq_ok.mpr ⟨rules'.map (·.1), ?_, ?_⟩⟩
          · rw [lookup_setKey_self]
            exact itemsOf_arr _
          · refine bind_eq_ok.mpr ⟨rules', hagain, ?_⟩
            rw [if_pos hany, setKey_of_lookup lookup_setKey_self,
              setKey_of_lookup lookup_setKey_self]
            rfl
      · rw [if_neg hany] at h
        obtain ⟨rfl, rfl⟩ := Prod.mk.inj (pure_eq_ok.mp h)
        refine ⟨fun _ => rfl, ⟨.rfl, fun name hh _ => ?_⟩, .inl rfl, fields, rfl, h'⟩
        rw [hhost] at hh
        obtain rfl := Option.some.inj hh
        have hsame := eq_of_none_rerouted heach fun p hp => by
          rw [Bool.not_eq_true, List.any_eq_false] at hany
          exact Bool.not_eq_true _ ▸ hany p hp
        rw [hsame] at hbecomes
        rw [hitems]
        split
        · rename_i items hl
          obtain hr | ⟨-, hr⟩ | ⟨-, hr, -⟩ := items_of_itemsOf hrules
          · rw [hl] at hr
            cases hr
            exact hbecomes
          · rw [hr items hl]
            exact .nil
          · exact absurd hl (hr items)
        · exact .nil

/-! ## One document -/

/-- the kinds the stopped step looks at -/
def stoppedKinds : List String :=
  ["Deployment", "StatefulSet", "Job", "CronJob", "HorizontalPodAutoscaler", "Pod", "Ingress"]

/-- what the stopped step makes of a document that it keeps -/
inductive Stops (py : Python) (stopped : Stopped) : Json → Json → Bool → Prop
  | scaled (fields spec : Fields)
      (hkind : (hasKind (.obj fields) "Deployment" || hasKind (.obj fields) "StatefulSet") = true)
      (hspec : asDict (orEmpty (fields.lookup "spec")) = .ok spec) :
      Stops py stopped (.obj fields) (.obj (setSpec "replicas" (integer 0) spec fields)) true
  | suspended (fields spec : Fields)
      (hkind : (hasKind (.obj fields) "Job" || hasKind (.obj fields) "CronJob") = true)
      (hspec : asDict (orEmpty (fields.lookup "spec")) = .ok spec) :
      Stops py stopped (.obj fields) (.obj (setSpec "suspend" (.bool true) spec fields)) true
  | ingress (fields : Fields) (doc' : Json) (changed : Bool)
      (hkind : hasKind (.obj fields) "Ingress" = true)
      (h : rerouteIngress py stopped fields = .ok (doc', changed)) :
      Stops py stopped (.obj fields) doc' changed
  | other (doc : Json) (hkind : ∀ kind ∈ stoppedKinds, hasKind doc kind = false) :
      Stops py stopped doc doc false

/-- the kinds the stopped step drops -/
def dropped (doc : Json) : Bool := hasKind doc "HorizontalPodAutoscaler" || hasKind doc "Pod"

theorem stop_cases {result : Option (Json × Bool)} (h : stop py doc stopped = .ok result) :
    (result = none ∧ dropped doc = true) ∨
      ∃ doc' changed, result = some (doc', changed) ∧ dropped doc = false ∧
        Stops py stopped doc doc' changed := by
  have hnot : ∀ {kind : String}, hasKind doc kind = true → kind ≠ "HorizontalPodAutoscaler" →
      kind ≠ "Pod" → dropped doc = false := by
    intro kind hkind h1 h2
    unfold dropped
    rw [hasKind_unique hkind h1, hasKind_unique hkind h2]
    rfl
  cases doc with
  | obj fields =>
    unfold stop at h
    simp only at h
    split at h
    · rename_i hkind
      obtain ⟨doc', hset, h⟩ := bind_eq_ok.mp h
      obtain rfl := pure_eq_ok.mp h
      obtain ⟨spec, hspec, rfl⟩ := setInSpec_eq_ok hset
      refine .inr ⟨_, _, rfl, ?_, .scaled fields spec hkind hspec⟩
      rcases Bool.or_eq_true_iff.mp hkind with hk | hk
      · exact hnot hk (by decide) (by decide)
      · exact hnot hk (by decide) (by decide)
    · rename_i hscaled
      split at h
      · rename_i hkind
        obtain ⟨doc', hset, h⟩ := bind_eq_ok.mp h
        obtain rfl := pure_eq_ok.mp h
        obtain ⟨spec, hspec, rfl⟩ := setInSpec_eq_ok hset
        refine .inr ⟨_, _, rfl, ?_, .suspended fields spec hkind hspec⟩
        rcases Bool.or_eq_true_iff.mp hkind with hk | hk
        · exact hnot hk (by decide) (by decide)
        · exact hnot hk (by decide) (by decide)
      · rename_i hsuspended
        split at h
        · rename_i hkind
          exact .inl ⟨(Except.ok.inj h).symm, hkind⟩
        · rename_i hdropped
          split at h
          · rename_i hkind
            obtain ⟨⟨doc', changed⟩, hingress, h⟩ := bind_eq_ok.mp h
            obtain rfl := pure_eq_ok.mp h
            exact .inr ⟨_, _, rfl, Bool.not_eq_true _ ▸ hdropped,
              .ingress fields doc' changed hkind hingress⟩
          · rename_i hingress
            refine .inr ⟨_, _, (Except.ok.inj h).symm, Bool.not_eq_true _ ▸ hdropped, .other _ ?_⟩
            simp only [Bool.not_eq_true, Bool.or_eq_false_iff] at hscaled hsuspended hdropped hingress
            simp [stoppedKinds, hscaled, hsuspended, hdropped, hingress]
  | _ =>
    refine .inr ⟨_, _, (Except.ok.inj h).symm, rfl, .other _ fun kind _ => ?_⟩
    rfl

theorem Stops.hasKind_eq {doc' : Json} (h : Stops py stopped doc doc' changed) (kind : String) :
    hasKind doc' kind = hasKind doc kind := by
  cases h with
  | scaled fields spec hkind hspec => exact hasKind_setKey (by decide)
  | suspended fields spec hkind hspec => exact hasKind_setKey (by decide)
  | ingress fields doc' changed hkind h =>
    obtain ⟨-, -, rfl | ⟨spec, rules, -, rfl⟩, -⟩ := rerouteIngress_again h
    · rfl
    · exact hasKind_setKey (by decide)
  | other doc hkind => rfl

/-- **a stopped document is stopped to itself** -/
theorem Stops.again {doc' : Json} (h : Stops py stopped doc doc' changed) :
    stop py doc' stopped = .ok (some (doc', changed)) := by
  cases h with
  | scaled fields spec hkind hspec =>
    have hkind' : (hasKind (.obj (setSpec "replicas" (integer 0) spec fields)) "Deployment" ||
        hasKind (.obj (setSpec "replicas" (integer 0) spec fields)) "StatefulSet") = true := by
      unfold setSpec
      rw [hasKind_setKey (by decide), hasKind_setKey (by decide)]
      exact hkind
    unfold stop
    simp only
    rw [if_pos hkind']
    exact bind_eq_ok.mpr ⟨_, setInSpec_setSpec, rfl⟩
  | suspended fields spec hkind hspec =>
    have hsame : ∀ kind, hasKind (.obj (setSpec "suspend" (.bool true) spec fields)) kind =
        hasKind (.obj fields) kind := fun kind => hasKind_setKey (by decide)
    have hnot : ∀ kind, kind ≠ "Job" → kind ≠ "CronJob" →
        hasKind (.obj (setSpec "suspend" (.bool true) spec fields)) kind = false := by
      intro kind h1 h2
      rw [hsame]
      rcases Bool.or_eq_true_iff.mp hkind with hk | hk
      · exact hasKind_unique hk h1.symm
      · exact hasKind_unique hk h2.symm
    have hkind' : (hasKind (.obj (setSpec "suspend" (.bool true) spec fields)) "Job" ||
        hasKind (.obj (setSpec "suspend" (.bool true) spec fields)) "CronJob") = true := by
      rw [hsame, hsame]
      exact hkind
    unfold stop
    simp only
    rw [hnot "Deployment" (by decide) (by decide), hnot "StatefulSet" (by decide) (by decide),
      Bool.or_self, if_neg Bool.false_ne_true, if_pos hkind']
    exact bind_eq_ok.mpr ⟨_, setInSpec_setSpec, rfl⟩
  | ingress fields doc' changed hkind h =>
    have hsame : ∀ kind, hasKind doc' kind = hasKind (.obj fields) kind :=
      (Stops.ingress fields doc' changed hkind h).hasKind_eq
    obtain ⟨-, -, -, fields', rfl, hagain⟩ := rerouteIngress_again h
    have hnot : ∀ kind, kind ≠ "Ingress" → hasKind (.obj fields') kind = false := by
      intro kind hne
      rw [hsame]
      exact hasKind_unique hkind hne.symm
    unfold stop
    simp only
    rw [hnot "Deployment" (by decide), hnot "StatefulSet" (by decide), hnot "Job" (by decide),
      hnot "CronJob" (by decide), hnot "HorizontalPodAutoscaler" (by decide),
      hnot "Pod" (by decide), Bool.or_self, if_neg Bool.false_ne_true, if_neg Bool.false_ne_true,
      if_neg Bool.false_ne_true, hsame, if_pos hkind]
    exact bind_eq_ok.mpr ⟨_, hagain, rfl⟩
  | other doc hkind =>
    simp only [stoppedKinds, List.forall_mem_cons] at hkind
    obtain ⟨h1, h2, h3, h4, h5, h6, h7, -⟩ := hkind
    cases doc with
    | obj fields =>
      unfold stop
      simp only
      rw [h1, h2, h3, h4, h5, h6, h7, Bool.or_self, if_neg Bool.false_ne_true,
        if_neg Bool.false_ne_true, if_neg Bool.false_ne_true, if_neg Bool.false_ne_true]
    | _ => rfl

/-- **the stopped step leaves the templates where they are** -/
theorem Stops.rewritten {doc' : Json} (h : Stops py stopped doc doc' changed)
    (hdropped : dropped doc = false) (hr : Rewritten gate annotations doc touched) :
    Rewritten gate annotations doc' touched := by
  have hpod : hasKind doc "Pod" = false := (Bool.or_eq_false_iff.mp hdropped).2
  cases h with
  | scaled fields spec hkind hspec => exact hr.setSpec hpod hspec (by decide) (by decide)
  | suspended fields spec hkind hspec => exact hr.setSpec hpod hspec (by decide) (by decide)
  | ingress fields doc' changed hkind h =>
    obtain ⟨-, -, rfl | ⟨spec, rules, hspec, rfl⟩, -⟩ := rerouteIngress_again h
    · exact hr
    · exact hr.setSpec hpod hspec (by decide) (by decide)
  | other doc hkind => exact hr

/-- a document of a stopped render: the chunk it was read from, as it was read, as a normal render
leaves it, and as it is emitted, with whether that changed it -/
structure Piece where
  chunk : String
  before : Json
  normal : Json
  after : Json
  changed : Bool

/-- what a stopped render makes of a document that it emits -/
structure Halted (py : Python) (gate : Json) (annotations : List (String × String))
    (stopped : Stopped) (p : Piece) : Prop where
  read : py.load p.chunk = .ok p.before
  normal : ∃ touched, renderDoc py gate annotations none p.before = .ok (some (p.normal, touched))
  podless : podTemplate p.before = .ok none → p.normal = p.before
  kind : ∀ kind, hasKind p.after kind = hasKind p.before kind
  emitted : dropped p.after = false
  scaled : hasKind p.after "Deployment" = true ∨ hasKind p.after "StatefulSet" = true →
    fieldOf p.after "spec" "replicas" = some (integer 0) ∧
      SameBut "spec" "replicas" p.normal p.after
  suspended : hasKind p.after "Job" = true ∨ hasKind p.after "CronJob" = true →
    fieldOf p.after "spec" "suspend" = some (.bool true) ∧
      SameBut "spec" "suspend" p.normal p.after
  rerouted : hasKind p.after "Ingress" = true → IngressRerouted py stopped p.normal p.after
  other : (∀ kind ∈ stoppedKinds, hasKind p.after kind = false) →
    podTemplate p.before = .ok none → p.after = p.before ∧ p.changed = false
  same : p.changed = false → p.after = p.before
  again : renderDoc py gate annotations (some stopped) p.after = .ok (some (p.after, p.changed))

/-- **what a stopped render emits of a document** -/
theorem halted_of_renderDoc (hgate : Gate gate) (hnodup : (annotations.map Prod.fst).Nodup)
    {chunk : String} {before after : Json} (hread : py.load chunk = .ok before)
    (h : renderDoc py gate annotations (some stopped) before = .ok (some (after, changed))) :
    dropped before = false ∧
      ∃ normal, Halted py gate annotations stopped ⟨chunk, before, normal, after, changed⟩ := by
  obtain ⟨⟨normal, touched⟩, hrewrite, h⟩ := bind_eq_ok.mp h
  obtain ⟨result, hstop, h⟩ := bind_eq_ok.mp h
  obtain ⟨rfl, -⟩ | ⟨doc', stopChanged, rfl, hdropped, hstops⟩ := stop_cases hstop
  · cases h
  obtain ⟨rfl, rfl⟩ := Prod.mk.inj (Option.some.inj (pure_eq_ok.mp h))
  obtain ⟨hrewritten, huntouched, -⟩ := rewrite_again hgate hnodup hrewrite
  have hnormal : ∀ kind, hasKind normal kind = hasKind before kind :=
    hasKind_rewrite hgate hnodup hrewrite
  have hkinds : ∀ kind, hasKind doc' kind = hasKind before kind :=
    fun kind => (hstops.hasKind_eq kind).trans (hnormal kind)
  have hbefore : dropped before = false := by
    unfold dropped at hdropped ⊢
    rw [← hnormal, ← hnormal]
    exact hdropped
  have hpodless : podTemplate before = .ok none → normal = before ∧ touched = false := by
    intro hnone
    obtain ⟨-, hsame, hfalse⟩ | ⟨path, template, pod, template', hholds, -⟩ :=
      rewrite_eq_ok.mp hrewrite
    · exact ⟨hsame, hfalse⟩
    · rw [podTemplate_eq_some.mpr hholds] at hnone
      cases hnone
  -- one kind at a time
  have hother : ∀ {k1 k2 : String}, hasKind doc' k1 = true → k1 ≠ k2 → hasKind normal k2 = false := by
    intro k1 k2 hk hne
    rw [← hstops.hasKind_eq]
    exact hasKind_unique hk hne
  refine ⟨hbefore, normal, ?_⟩
  exact {
    read := hread
    normal := ⟨touched, bind_eq_ok.mpr ⟨_, hrewrite, rfl⟩⟩
    podless := fun hnone => (hpodless hnone).1
    kind := hkinds
    emitted := by
      unfold dropped at hbefore ⊢
      rw [hkinds, hkinds]
      exact hbefore
    scaled := by
      intro hkind
      have hnot : ∀ {kind : String}, kind ≠ "Deployment" → kind ≠ "StatefulSet" →
          hasKind normal kind = false := by
        intro kind h1 h2
        rcases hkind with hk | hk
        · exact hother hk h1.symm
        · exact hother hk h2.symm
      cases hstops with
      | scaled fields spec hk hspec => exact ⟨fieldOf_setKey, sameBut_setKey hspec⟩
      | suspended fields spec hk hspec =>
        rw [hnot (by decide) (by decide), hnot (by decide) (by decide)] at hk
        cases hk
      | ingress fields doc' c hk h =>
        rw [hnot (by decide) (by decide)] at hk
        cases hk
      | other doc hk =>
        rcases hkind with hkind | hkind
        · rw [hk _ (by decide)] at hkind
          cases hkind
        · rw [hk _ (by decide)] at hkind
          cases hkind
    suspended := by
      intro hkind
      have hnot : ∀ {kind : String}, kind ≠ "Job" → kind ≠ "CronJob" →
          hasKind normal kind = false := by
        intro kind h1 h2
        rcases hkind with hk | hk
        · exact hother hk h1.symm
        · exact hother hk h2.symm
      cases hstops with
      | scaled fields spec hk hspec =>
        rw [hnot (by decide) (by decide), hnot (by decide) (by decide)] at hk
        cases hk
      | suspended fields spec hk hspec => exact ⟨fieldOf_setKey, sameBut_setKey hspec⟩
      | ingress fields doc' c hk h =>
        rw [hnot (by decide) (by decide)] at hk
        cases hk
      | other doc hk =>
        rcases hkind with hkind | hkind
        · rw [hk _ (by decide)] at hkind
          cases hkind
        · rw [hk _ (by decide)] at hkind
          cases hkind
    rerouted := by
      intro hkind
      cases hstops with
      | scaled fields spec hk hspec =>
        rw [hother hkind (by decide), hother hkind (by decide)] at hk
        cases hk
      | suspended fields spec hk hspec =>
        rw [hother hkind (by decide), hother hkind (by decide)] at hk
        cases hk
      | ingress fields doc' c hk h => exact (rerouteIngress_again h).2.1
      | other doc hk =>
        rw [hk _ (by decide)] at hkind
        cases hkind
    other := by
      intro hkind htemplate
      have hnone : ∀ kind ∈ stoppedKinds, hasKind normal kind = false := by
        intro kind hk
        rw [← hstops.hasKind_eq]
        exact hkind kind hk
      cases hstops with
      | scaled fields spec hk hspec =>
        rw [hnone _ (by decide), hnone _ (by decide)] at hk
        cases hk
      | suspended fields spec hk hspec =>
        rw [hnone _ (by decide), hnone _ (by decide)] at hk
        cases hk
      | ingress fields doc' c hk h =>
        rw [hnone _ (by decide)] at hk
        cases hk
      | other doc hk =>
        obtain ⟨hsame, htouched⟩ := hpodless htemplate
        refine ⟨hsame, ?_⟩
        show (touched || false) = false
        rw [htouched]
        rfl
    same := by
      intro hfalse
      obtain ⟨htouched, hstopped⟩ := Bool.or_eq_false_iff.mp hfalse
      have hbeforeEq := huntouched htouched
      cases hstops with
      | scaled fields spec hk hspec => cases hstopped
      | suspended fields spec hk hspec => cases hstopped
      | ingress fields doc' c hk h => exact ((rerouteIngress_again h).1 hstopped).trans hbeforeEq
      | other doc hk => exact hbeforeEq
    again := by
      refine bind_eq_ok.mpr ⟨_, (hstops.rewritten hdropped hrewritten).rewrite_eq, ?_⟩
      exact bind_eq_ok.mpr ⟨_, hstops.again, rfl⟩ }

/-- only these two kinds are dropped -/
theorem dropped_of_renderDoc (hgate : Gate gate) (hnodup : (annotations.map Prod.fst).Nodup)
    (h : renderDoc py gate annotations (some stopped) doc = .ok none) : dropped doc = true := by
  obtain ⟨⟨normal, touched⟩, hrewrite, h⟩ := bind_eq_ok.mp h
  obtain ⟨result, hstop, h⟩ := bind_eq_ok.mp h
  obtain ⟨rfl, hdropped⟩ | ⟨doc', stopChanged, rfl, -, -⟩ := stop_cases hstop
  · unfold dropped at hdropped ⊢
    rw [← hasKind_rewrite hgate hnodup hrewrite, ← hasKind_rewrite hgate hnodup hrewrite]
    exact hdropped
  · cases pure_eq_ok.mp h

/-! ## The stream -/

/-- the document's text -/
def Piece.text (py : Python) (p : Piece) : String := emit py p.chunk p.after p.changed

/-- a chunk that is not emitted -/
def droppedChunk (py : Python) (chunk : String) : Bool :=
  match py.load chunk with
  | .ok doc => dropped doc
  | .error _ => false

/-- one chunk after the other -/
theorem pieces_of_chunks (hgate : Gate gate) (hnodup : (annotations.map Prod.fst).Nodup)
    {chunks : List String} {out : List (Option String)}
    (h : List.Forall₂ (fun chunk o => renderChunk py gate annotations (some stopped) chunk = .ok o)
      chunks out) :
    ∃ pieces : List Piece, out.filterMap id = pieces.map (·.text py) ∧
      (∀ p ∈ pieces, Halted py gate annotations stopped p) ∧
      pieces.map (·.chunk) = chunks.filter (!droppedChunk py ·) := by
  induction h with
  | nil => exact ⟨[], rfl, (fun p hp => (List.not_mem_nil hp).elim), rfl⟩
  | @cons chunk o chunks out ho _ ih =>
    obtain ⟨pieces, htexts, hhalted, hchunks⟩ := ih
    obtain ⟨before, hread, ho⟩ := bind_eq_ok.mp ho
    obtain ⟨result, hdoc, ho⟩ := bind_eq_ok.mp ho
    cases result with
    | none =>
      obtain rfl := pure_eq_ok.mp ho
      have hdropped : droppedChunk py chunk = true := by
        unfold droppedChunk
        rw [hread]
        exact dropped_of_renderDoc hgate hnodup hdoc
      refine ⟨pieces, htexts, hhalted, ?_⟩
      rw [List.filter_cons_of_neg (by simp [hdropped])]
      exact hchunks
    | some result =>
      obtain ⟨after, changed⟩ := result
      obtain rfl := pure_eq_ok.mp ho
      obtain ⟨hkept, normal, hp⟩ := halted_of_renderDoc hgate hnodup hread hdoc
      have hdropped : droppedChunk py chunk = false := by
        unfold droppedChunk
        rw [hread]
        exact hkept
      refine ⟨⟨chunk, before, normal, after, changed⟩ :: pieces, ?_, ?_, ?_⟩
      · show emit py chunk after changed :: out.filterMap id = _
        rw [htexts]
        rfl
      · exact List.forall_mem_cons.mpr ⟨hp, hhalted⟩
      · rw [List.filter_cons_of_pos (by simp [hdropped]), List.map_cons, hchunks]

/-- the documents that are emitted, of a stream whose documents are known -/
theorem before_of_chunks {py : Python} {pieces : List Piece} {chunks : List String}
    {documents : List Json} (hread : ∀ p ∈ pieces, py.load p.chunk = .ok p.before)
    (hchunks : pieces.map (·.chunk) = chunks.filter (!droppedChunk py ·))
    (hload : chunks.map py.load = documents.map .ok) :
    pieces.map (·.before) = documents.filter (!dropped ·) := by
  induction chunks generalizing pieces documents with
  | nil =>
    cases documents with
    | nil => rw [List.map_eq_nil_iff.mp hchunks]; rfl
    | cons doc documents => cases hload
  | cons chunk chunks ih =>
    cases documents with
    | nil => cases hload
    | cons doc documents =>
      obtain ⟨hdoc, hload⟩ := List.cons.inj hload
      have hsame : droppedChunk py chunk = dropped doc := by
        unfold droppedChunk
        rw [hdoc]
      rw [List.filter_cons, hsame] at hchunks
      rw [List.filter_cons]
      cases hd : dropped doc with
      | true =>
        rw [hd] at hchunks
        exact ih hread hchunks hload
      | false =>
        rw [hd] at hchunks
        cases pieces with
        | nil => cases hchunks
        | cons p pieces =>
          obtain ⟨hp, hchunks⟩ := List.cons.inj hchunks
          have hbefore : p.before = doc := by
            have hp : p.chunk = chunk := hp
            have h := hread p List.mem_cons_self
            rw [hp, hdoc] at h
            exact (Except.ok.inj h).symm
          have hrest := ih (fun q hq => hread q (List.mem_cons_of_mem _ hq)) hchunks hload
          rw [List.map_cons, hbefore, hrest]
          rfl

/-- the parking Service passes through as it is -/
theorem renderDoc_parkingService :
    renderDoc py gate annotations (some stopped) (parkingService stopped) =
      .ok (some (parkingService stopped, false)) := by
  have hnone : podTemplate (parkingService stopped) = .ok none := rfl
  have hrewrite : rewrite (parkingService stopped) gate annotations =
      .ok (parkingService stopped, false) := rewrite_eq_ok.mpr (.inl ⟨hnone, rfl, rfl⟩)
  refine bind_eq_ok.mpr ⟨_, hrewrite, ?_⟩
  exact bind_eq_ok.mpr ⟨some (parkingService stopped, false), rfl, rfl⟩

/-- **a stopped render runs nothing** of the kinds it stops, reroutes the deployment's own hostname,
and leaves the rest as a normal render does -/
theorem stopped_runs_nothing (py : Python) (manifests : String) (gate : Json)
    (annotations : List (String × String)) (stopped : Stopped) (hgate : Gate gate)
    (hnodup : (annotations.map Prod.fst).Nodup) {text : String}
    (h : render py manifests gate annotations (some stopped) = .ok text) :
    ∃ pieces : List Piece,
      text = String.join ((pieces.map (·.text py) ++ parkingText py (some stopped)).map
        fun c => "---\n" ++ c) ∧
      (∀ p ∈ pieces, Halted py gate annotations stopped p) ∧
      pieces.map (·.chunk) = (chunksOf manifests).filter (!droppedChunk py ·) ∧
      renderDoc py gate annotations (some stopped) (parkingService stopped) =
        .ok (some (parkingService stopped, false)) := by
  obtain ⟨out, hout, h⟩ := bind_eq_ok.mp h
  obtain ⟨pieces, htexts, hhalted, hchunks⟩ :=
    pieces_of_chunks hgate hnodup (mapM_eq_ok.mp hout)
  refine ⟨pieces, ?_, hhalted, hchunks, renderDoc_parkingService⟩
  rw [← pure_eq_ok.mp h, htexts]

/-! ## A kind that is not stopped, and a second render -/

/-- the segments of a text between its lines of dashes -/
def segmentsOf (text : List Char) : List (List Char) :=
  let segments := (text.splitOn '\n').splitOnP isSeparator
  segments.zipIdx.map fun (lines, i) => ['\n'].intercalate
    ((if i = 0 then [] else [[]]) ++ lines ++ (if i + 1 = segments.length then [] else [[]]))

/-- a segment of white space only -/
def blank (segment : List Char) : Bool := segment.all isWhitespace

theorem splitSeparators_ofList (text : List Char) :
    splitSeparators (String.ofList text) = (segmentsOf text).map String.ofList := by
  unfold splitSeparators segmentsOf
  rw [String.toList_ofList, List.map_map]
  rfl

theorem all_isWhitespace_of_strip {l : List Char} (h : strip (String.ofList l) = "") :
    l.all isWhitespace = true := by
  rw [strip, String.toList_ofList, ← String.toList_inj, String.toList_ofList] at h
  have h : (l.dropWhile isWhitespace).rdropWhile isWhitespace = [] := h
  rw [List.rdropWhile_eq_nil_iff] at h
  rw [List.all_eq_true]
  intro c hc
  rw [← List.takeWhile_append_dropWhile (p := isWhitespace) (l := l)] at hc
  obtain hc | hc := List.mem_append.mp hc
  · exact List.mem_takeWhile_imp hc
  · exact h c hc

theorem strip_ne_of_not_blank {segment : List Char} (h : blank segment = false) :
    (strip (String.ofList segment) != "") = true :=
  bne_iff_ne.mpr fun hs => Bool.false_ne_true (h.symm.trans (all_isWhitespace_of_strip hs))

theorem chunksOf_ofList {text : List Char} (h : ∀ s ∈ segmentsOf text, blank s = false) :
    chunksOf (String.ofList text) = (segmentsOf text).map String.ofList := by
  rw [chunksOf, splitSeparators_ofList]
  refine List.filter_eq_self.mpr fun chunk hchunk => ?_
  obtain ⟨segment, hs, rfl⟩ := List.mem_map.mp hchunk
  exact strip_ne_of_not_blank (h segment hs)

theorem chunksOf_ne_nil {text : List Char} (h : (segmentsOf text).any (!blank ·) = true) :
    chunksOf (String.ofList text) ≠ [] := by
  obtain ⟨segment, hmem, hblank⟩ := List.any_eq_true.mp h
  have hchunk : String.ofList segment ∈ chunksOf (String.ofList text) := by
    rw [chunksOf, splitSeparators_ofList]
    exact List.mem_filter.mpr ⟨List.mem_map_of_mem hmem,
      strip_ne_of_not_blank ((Bool.not_eq_true' _).mp hblank)⟩
  exact List.ne_nil_of_mem hchunk

/-- a stream whose chunks all render renders -/
theorem render_of_chunks {manifests : String} {stopped : Option Stopped}
    (h : ∀ chunk ∈ chunksOf manifests, ∃ o, renderChunk py gate annotations stopped chunk = .ok o) :
    ∃ text, render py manifests gate annotations stopped = .ok text := by
  have hmap : ∀ chunks : List String,
      (∀ chunk ∈ chunks, ∃ o, renderChunk py gate annotations stopped chunk = .ok o) →
      ∃ out, chunks.mapM (renderChunk py gate annotations stopped) = .ok out := by
    intro chunks
    induction chunks with
    | nil => exact fun _ => ⟨[], rfl⟩
    | cons chunk chunks ih =>
      intro hall
      obtain ⟨o, ho⟩ := hall chunk List.mem_cons_self
      obtain ⟨out, hout⟩ := ih fun c hc => hall c (List.mem_cons_of_mem _ hc)
      exact ⟨o :: out, mapM_eq_ok.mpr (.cons ho (mapM_eq_ok.mp hout))⟩
  obtain ⟨out, hout⟩ := hmap _ h
  exact ⟨_, bind_eq_ok.mpr ⟨out, hout, rfl⟩⟩

namespace Sample

def gateNamed : Json := .obj [("name", .str containerName)]

def podSpec : Fields := [("containers", .arr [.obj [("name", .str "app")]])]

def daemonSetText : String := "kind: DaemonSet
spec:
  template:
    spec:
      containers:
      - name: app
"

def daemonSet : Json :=
  .obj [("kind", .str "DaemonSet"), ("spec", .obj [("template", .obj [("spec", .obj podSpec)])])]

def parkingText : String := "apiVersion: v1
kind: Service
metadata:
  name: r-caelus-parking
spec:
  type: ExternalName
  externalName: api.caelus.svc
  ports:
  - name: http
    port: 8000
    protocol: TCP
"

def halt : Stopped := ⟨"r", some "app.alice.freepod.eu", "api.caelus.svc", 8000⟩

/-- PyYAML on the documents of the runs below -/
def python : Python where
  load := fun chunk =>
    if stripNewlines chunk = stripNewlines daemonSetText then .ok daemonSet
    else if stripNewlines chunk =
        stripNewlines ("# Source: caelus post-render (stopped)\n" ++ parkingText) then
      .ok (parkingService halt)
    else .error .yamlError
  dump := fun doc =>
    if hasKind doc "Service" = true then parkingText
    else daemonSetText ++ "      initContainers:\n      - name: caelus-egress-gate\n"
  printer := ⟨fun m _ => toString m, id⟩
  lower := lower

/-- the parking Service alone -/
def parking : String := "---\n# Source: caelus post-render (stopped)\n" ++ parkingText

theorem gate_sample : Gate gateNamed := ⟨⟨_, rfl⟩, beq_self_eq_true containerName⟩

theorem rendered : daemonSetText ∈ chunksOf daemonSetText ∧ ∃ text,
    render python daemonSetText gateNamed [] (some halt) = .ok text := by
  have hok : (chunksOf daemonSetText).contains daemonSetText = true ∧
      (render python daemonSetText gateNamed [] (some halt)).toOption.isSome = true := by
    decide +kernel
  obtain ⟨text, htext⟩ := Option.isSome_iff_exists.mp hok.2
  exact ⟨List.contains_iff_mem.mp hok.1, text, toOption_eq_some.mp htext⟩

theorem join_parkingText :
    String.join ((PostRender.parkingText python (some halt)).map fun c => "---\n" ++ c) =
      parking := by
  have hhostname : halt.hostname.any (· ≠ "") = true := rfl
  have hkind : hasKind (parkingService halt) "Service" = true := rfl
  have hdump : python.dump (parkingService halt) = parkingText := by
    unfold python
    simp only [hkind, if_true]
  rw [PostRender.parkingText, if_pos hhostname, hdump, List.map_cons, List.map_nil,
    String.join_cons, String.join_nil, String.append_empty, ← String.append_assoc]
  rfl

/-- a release of nothing is the parking Service alone -/
theorem render_nothing : render python "" gateNamed [] (some halt) = .ok parking := by
  have hchunks : chunksOf "" = [] := by decide
  unfold render
  rw [hchunks, ← join_parkingText]
  rfl

/-- the comment the parking Service begins with -/
def comment : String := "# Source: caelus post-render (stopped)\n"

set_option maxRecDepth 4000 in
theorem segmentsOf_parking : ∃ text, parkingText = String.ofList text ∧
    (segmentsOf (['-', '-', '-', '\n'] ++ (comment.toList ++ text))).any (!blank ·) = true := by
  refine ⟨?_, ?_, ?_⟩
  rotate_left
  · with_unfolding_all rfl
  · decide +kernel

theorem chunksOf_parking : chunksOf parking ≠ [] := by
  obtain ⟨text, htext, hchunk⟩ := segmentsOf_parking
  have hparking :
      parking = String.ofList (['-', '-', '-', '\n'] ++ (comment.toList ++ text)) := by
    rw [String.ofList_append, String.ofList_append, ← htext, String.ofList_toList,
      ← String.append_assoc]
    rfl
  rw [hparking]
  exact chunksOf_ne_nil hchunk

/-- no document of these is dropped -/
theorem not_droppedChunk (chunk : String) : droppedChunk python chunk = false := by
  unfold droppedChunk python
  dsimp only
  split
  · rename_i doc hload
    split at hload
    · cases hload
      rfl
    · split at hload
      · cases hload
        rfl
      · cases hload
  · rfl

/-- a second render adds the parking Service again: were its output the same, it would be too short
for the chunk that was there -/
theorem render_parking : render python parking gateNamed [] (some halt) ≠ .ok parking := by
  intro h
  obtain ⟨out, hout, h⟩ := bind_eq_ok.mp h
  have hnodup : (([] : List (String × String)).map Prod.fst).Nodup := List.nodup_nil
  obtain ⟨pieces, htexts, -, hchunks⟩ := pieces_of_chunks gate_sample hnodup (mapM_eq_ok.mp hout)
  rw [List.filter_eq_self.mpr fun chunk _ => by rw [not_droppedChunk]; rfl] at hchunks
  have htext := pure_eq_ok.mp h
  rw [htexts, List.map_append, String.join_append, join_parkingText] at htext
  have hlength := congrArg String.length htext
  rw [String.length_append] at hlength
  cases pieces with
  | nil => exact chunksOf_parking hchunks.symm
  | cons piece pieces =>
    rw [List.map_cons, List.map_cons, String.join_cons, String.length_append,
      String.length_append, show "---\n".length = 4 from rfl] at hlength
    omega

end Sample

/-- neither scaled to nothing nor suspended -/
def Runs (doc : Json) : Prop :=
  (∃ path template pod, Holds doc path template pod) ∧
    fieldOf doc "spec" "replicas" ≠ some (integer 0) ∧
      fieldOf doc "spec" "suspend" ≠ some (.bool true)

/-- a DaemonSet is left to run; and rendering the output again adds the parking Service again -/
theorem stopped_daemonSet :
    (¬ ∀ (py : Python) (manifests text chunk : String) (gate before after : Json)
      (annotations : List (String × String)) (stopped : Stopped) (changed : Bool),
      Gate gate → (annotations.map Prod.fst).Nodup →
      render py manifests gate annotations (some stopped) = .ok text → chunk ∈ chunksOf manifests →
      py.load chunk = .ok before →
      renderDoc py gate annotations (some stopped) before = .ok (some (after, changed)) →
      ¬ Runs after) ∧
    ¬ ∀ (py : Python) (manifests text : String) (gate : Json)
      (annotations : List (String × String)) (stopped : Stopped),
      Gate gate → (annotations.map Prod.fst).Nodup →
      render py manifests gate annotations (some stopped) = .ok text →
      render py text gate annotations (some stopped) = .ok text := by
  constructor
  · intro hall
    obtain ⟨hchunk, text, htext⟩ := Sample.rendered
    have hload : Sample.python.load Sample.daemonSetText = .ok Sample.daemonSet := by
      unfold Sample.python
      simp only [if_true]
    refine hall Sample.python _ text Sample.daemonSetText _ _ _ [] Sample.halt true
      Sample.gate_sample List.nodup_nil htext hchunk hload rfl ?_
    refine ⟨⟨["spec", "template"], _, _, podTemplate_eq_some.mp rfl⟩, ?_, ?_⟩
    · exact fun h => nomatch h
    · exact fun h => nomatch h
  · intro hall
    exact Sample.render_parking (hall Sample.python "" Sample.parking Sample.gateNamed []
      Sample.halt Sample.gate_sample List.nodup_nil Sample.render_nothing)

namespace Sample

def podOf (name : String) : Json :=
  .obj [("spec", .obj [("containers", .arr [.obj [("name", .str name)]])])]

def ruleOf (host : String) : Json :=
  .obj [("host", .str host), ("http", .obj [("paths", .arr [.obj [("path", .str "/")]])])]

def deployment : Json :=
  .obj [("kind", .str "Deployment"),
    ("spec", .obj [("replicas", integer 2), ("template", podOf "app")])]

def cronJob : Json :=
  .obj [("kind", .str "CronJob"),
    ("spec", .obj [("jobTemplate", .obj [("spec", .obj [("template", podOf "sweep")])])])]

def hookPod : Json :=
  .obj [("kind", .str "Pod"), ("spec", .obj [("containers", .arr [.obj [("name", .str "hook")]])])]

def ingress : Json :=
  .obj [("kind", .str "Ingress"),
    ("spec", .obj [("rules", .arr [ruleOf "App.Alice.freepod.eu", ruleOf "www.example.org"])])]

def configMap : Json :=
  .obj [("kind", .str "ConfigMap"), ("data", .obj [("colour", .str "green")])]

/-- the text of some lines -/
def unlines (lines : List String) : List Char := lines.flatMap fun line => line.toList ++ ['\n']

/-- a release with a workload, a schedule, a hook's pod, a way in and settings -/
def documents : List Json := [deployment, cronJob, hookPod, ingress, configMap]

/-- what the chart writes for them -/
def texts : List (List Char) :=
  [unlines ["kind: Deployment", "spec:", "  replicas: 2", "  template:", "    spec:",
      "      containers:", "      - name: app"],
    unlines ["kind: CronJob", "spec:", "  jobTemplate:", "    spec:", "      template:",
      "        spec:", "          containers:", "          - name: sweep"],
    unlines ["kind: Pod", "spec:", "  containers:", "  - name: hook"],
    unlines ["kind: Ingress", "spec:", "  rules:", "  - host: App.Alice.freepod.eu", "    http:",
      "      paths:", "      - path: /", "  - host: www.example.org", "    http:", "      paths:",
      "      - path: /"],
    unlines ["kind: ConfigMap", "data:", "  colour: green"]]

def manifests : String := String.ofList ((unlines ["---"]).intercalate texts)

/-- `strip("\n")` of a list of characters -/
def trim (text : List Char) : List Char := (text.dropWhile (· == '\n')).rdropWhile (· == '\n')

/-- PyYAML on the documents of the release -/
def release : Python where
  load := fun chunk =>
    match (texts.findIdx? fun text => stripNewlines chunk == String.ofList (trim text)).bind
      (documents[·]?) with
    | some document => .ok document
    | none => .error .yamlError
  dump := fun doc =>
    if hasKind doc "Service" = true then parkingText
    else if hasKind doc "Deployment" = true then String.ofList (unlines ["kind: Deployment",
      "spec:", "  replicas: 0", "  template:", "    spec:", "      containers:",
      "      - name: app", "      initContainers:", "      - name: caelus-egress-gate"])
    else if hasKind doc "CronJob" = true then String.ofList (unlines ["kind: CronJob", "spec:",
      "  jobTemplate:", "    spec:", "      template:", "        spec:", "          containers:",
      "          - name: sweep", "          initContainers:",
      "          - name: caelus-egress-gate", "  suspend: true"])
    else String.ofList (unlines ["kind: Ingress", "spec:", "  rules:",
      "  - host: App.Alice.freepod.eu", "    http:", "      paths:", "      - path: /",
      "        backend:", "          service:", "            name: r-caelus-parking",
      "            port:", "              number: 8000", "  - host: www.example.org", "    http:",
      "      paths:", "      - path: /"])
  printer := ⟨fun m _ => toString m, id⟩
  lower := lower

theorem release_load {text : List Char} {i : Nat} {doc : Json}
    (h : texts.findIdx? (trim text == trim ·) = some i) (hdoc : documents[i]? = some doc) :
    release.load (String.ofList text) = .ok doc := by
  have htrim : stripNewlines (String.ofList text) = String.ofList (trim text) := by
    rw [stripNewlines, String.toList_ofList]
    rfl
  have hsame : (fun t : List Char => stripNewlines (String.ofList text) == String.ofList (trim t)) =
      fun t => trim text == trim t := by
    funext t
    rw [htrim, Bool.eq_iff_iff, beq_iff_eq, beq_iff_eq, String.ofList_inj]
  unfold release
  dsimp only
  rw [hsame, h, Option.bind_some, hdoc]

theorem segments_manifests :
    (segmentsOf ((unlines ["---"]).intercalate texts)).map
      (fun segment => texts.findIdx? (trim segment == trim ·)) =
        [some 0, some 1, some 2, some 3, some 4] ∧
    (segmentsOf ((unlines ["---"]).intercalate texts)).all (!blank ·) = true := by
  decide +kernel

theorem load_manifests : (chunksOf manifests).map release.load = documents.map .ok := by
  obtain ⟨hindex, hblank⟩ := segments_manifests
  have hchunks : chunksOf manifests =
      (segmentsOf ((unlines ["---"]).intercalate texts)).map String.ofList :=
    chunksOf_ofList fun s hs => (Bool.not_eq_true' _).mp (List.all_eq_true.mp hblank s hs)
  rw [hchunks, List.map_map]
  generalize segmentsOf ((unlines ["---"]).intercalate texts) = segments at hindex ⊢
  obtain ⟨s₁, segments, rfl, h₁, hindex⟩ := List.map_eq_cons_iff.mp hindex
  obtain ⟨s₂, segments, rfl, h₂, hindex⟩ := List.map_eq_cons_iff.mp hindex
  obtain ⟨s₃, segments, rfl, h₃, hindex⟩ := List.map_eq_cons_iff.mp hindex
  obtain ⟨s₄, segments, rfl, h₄, hindex⟩ := List.map_eq_cons_iff.mp hindex
  obtain ⟨s₅, segments, rfl, h₅, hindex⟩ := List.map_eq_cons_iff.mp hindex
  obtain rfl := List.map_eq_nil_iff.mp hindex
  show [release.load (String.ofList s₁), release.load (String.ofList s₂),
    release.load (String.ofList s₃), release.load (String.ofList s₄),
    release.load (String.ofList s₅)] = _
  rw [release_load h₁ rfl, release_load h₂ rfl, release_load h₃ rfl, release_load h₄ rfl,
    release_load h₅ rfl]
  rfl

/-- every document of the release renders -/
theorem renderDoc_documents : ∀ doc ∈ documents,
    (renderDoc release gateNamed [] (some halt) doc).toOption.isSome = true := by
  decide +kernel

theorem release_rendered : ∃ text, render release manifests gateNamed [] (some halt) = .ok text := by
  refine render_of_chunks fun chunk hchunk => ?_
  obtain ⟨doc, hdoc, hload⟩ := List.mem_map.mp
    (load_manifests ▸ List.mem_map_of_mem hchunk : release.load chunk ∈ documents.map .ok)
  obtain ⟨result, hresult⟩ := Option.isSome_iff_exists.mp (renderDoc_documents doc hdoc)
  have hrender := toOption_eq_some.mp hresult
  cases result with
  | none => exact ⟨none, bind_eq_ok.mpr ⟨doc, hload.symm, bind_eq_ok.mpr ⟨none, hrender, rfl⟩⟩⟩
  | some result =>
    exact ⟨_, bind_eq_ok.mpr ⟨doc, hload.symm, bind_eq_ok.mpr ⟨some result, hrender, rfl⟩⟩⟩

end Sample

/-- a release whose workload is scaled, whose schedule is suspended, whose hook is dropped, whose way
in is rerouted for its own host and whose settings are left alone -/
theorem stopped_runs_nothing_release : ∃ (text : String) (p₁ p₂ p₃ p₄ : Piece),
    render Sample.release Sample.manifests Sample.gateNamed [] (some Sample.halt) = .ok text ∧
      text = String.join (([p₁, p₂, p₃, p₄].map (·.text Sample.release) ++
        parkingText Sample.release (some Sample.halt)).map fun c => "---\n" ++ c) ∧
      [p₁, p₂, p₃, p₄].map (·.before) =
        [Sample.deployment, Sample.cronJob, Sample.ingress, Sample.configMap] ∧
      fieldOf p₁.after "spec" "replicas" = some (integer 0) ∧
      fieldOf p₂.after "spec" "suspend" = some (.bool true) ∧
      IngressRerouted Sample.release Sample.halt p₃.normal p₃.after ∧
      p₄.after = Sample.configMap ∧ p₄.changed = false := by
  obtain ⟨text, htext⟩ := Sample.release_rendered
  obtain ⟨pieces, hjoin, hhalted, hchunks, -⟩ := stopped_runs_nothing Sample.release Sample.manifests
    Sample.gateNamed [] Sample.halt Sample.gate_sample List.nodup_nil htext
  have hbefore : pieces.map (·.before) =
      [Sample.deployment, Sample.cronJob, Sample.ingress, Sample.configMap] :=
    before_of_chunks (fun p hp => (hhalted p hp).read) hchunks Sample.load_manifests
  obtain ⟨p₁, rest, rfl, h₁, hrest⟩ := List.map_eq_cons_iff.mp hbefore
  obtain ⟨p₂, rest, rfl, h₂, hrest⟩ := List.map_eq_cons_iff.mp hrest
  obtain ⟨p₃, rest, rfl, h₃, hrest⟩ := List.map_eq_cons_iff.mp hrest
  obtain ⟨p₄, rest, rfl, h₄, hrest⟩ := List.map_eq_cons_iff.mp hrest
  obtain rfl := List.map_eq_nil_iff.mp hrest
  have halted₁ := hhalted p₁ (by simp)
  have halted₂ := hhalted p₂ (by simp)
  have halted₃ := hhalted p₃ (by simp)
  have halted₄ := hhalted p₄ (by simp)
  obtain ⟨hscaled, -⟩ := halted₁.scaled (.inl ((halted₁.kind _).trans (by rw [h₁]; decide)))
  obtain ⟨hsuspended, -⟩ := halted₂.suspended (.inr ((halted₂.kind _).trans (by rw [h₂]; decide)))
  have hrerouted := halted₃.rerouted ((halted₃.kind _).trans (by rw [h₃]; decide))
  obtain ⟨hsame, hunchanged⟩ := halted₄.other
    (fun kind hkind => (halted₄.kind kind).trans (by rw [h₄]; revert kind; decide))
    (by rw [h₄]; rfl)
  exact ⟨text, p₁, p₂, p₃, p₄, htext, hjoin, hbefore, hscaled, hsuspended, hrerouted,
    hsame.trans h₄, hunchanged⟩

end Freepod.PostRender
