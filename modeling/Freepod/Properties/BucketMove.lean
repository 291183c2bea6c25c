import Freepod.Cli.BucketMove

/-!
# What a copy or a move does to the bucket

* `flatMap_slice`: the parts of a copy are the object.
* `Effect` is all that a run does to the bucket, and `Kept` what each effect keeps.
* `named_eq`: a delete names the keys it is for, or none.
* `Transfer.step_cases` lists what a step can do.
-/

namespace Freepod.Cli

open Base

variable {β : Type} {l : Limits} {move : Bool} {plan : Plan} {objs objects objects' : Objects β}

/-! ## the parts of a copy -/

theorem flatMap_slice {partSize : Nat} (hpart : 0 < partSize) (content : List β) :
    (copyRanges partSize content.length).flatMap (slice content) = content := by
  have hparts : ∀ n, n ≤ (content.length + partSize - 1) / partSize →
      ((List.range n).map fun n => (n * partSize,
        min (n * partSize + partSize) content.length - 1)).flatMap (slice content) =
          content.take (n * partSize) := by
    intro n
    induction n with
    | zero =>
      intro _
      simp
    | succ n ih =>
      intro hn
      have hlt : n * partSize < content.length := by
        have := (Nat.le_div_iff_mul_le hpart).mp hn
        rw [Nat.succ_mul] at this
        omega
      rw [List.range_succ, List.map_append, List.flatMap_append, ih (Nat.le_of_succ_le hn),
        List.map_singleton, List.flatMap_singleton, Nat.succ_mul, List.take_add]
      congr 1
      rw [slice, List.take_eq_take_iff, List.length_drop]
      dsimp only
      omega
  have hall := hparts _ (Nat.le_refl _)
  unfold copyRanges
  rw [hall]
  apply List.take_of_length_le
  have := Nat.lt_mul_div_succ (content.length + partSize - 1) hpart
  rw [Nat.mul_comm, Nat.succ_mul] at this
  omega

/-! ## what a plan takes up -/

/-- an object of the bucket that a plan takes up, and its content -/
def Item (plan : Plan) (objs : Objects β) (k : Str) (c : List β) : Prop :=
  plan.source k = true ∧ objs.content k = some c

/-- no object lands where the plan takes one up, none without a key, and no two in one place -/
structure Apart (plan : Plan) (objs : Objects β) : Prop where
  outside : ∀ k c, Item plan objs k c → plan.source (plan.dest k) = false
  keyed : ∀ k c, Item plan objs k c → plan.dest k ≠ []
  injective : ∀ j c k c', Item plan objs j c → Item plan objs k c' → plan.dest j = plan.dest k →
    j = k

theorem Item.eq {k : Str} {c c' : List β} (h : Item plan objs k c) (h' : Item plan objs k c') :
    c = c' := Option.some.inj (h.2.symm.trans h'.2)

/-- an item's copy is where it goes -/
def Copied (plan : Plan) (objs objects : Objects β) (k : Str) : Prop :=
  ∃ c, Item plan objs k c ∧ objects.content (plan.dest k) = some c

/-- **nothing is lost**: an item is where it was, or was moved and is where it goes; and of the rest
of the bucket nothing changed but the places items go to -/
structure Kept (move : Bool) (plan : Plan) (objs objects : Objects β) : Prop where
  items : ∀ k c, Item plan objs k c → objects.content k = some c ∨
    move = true ∧ objects.content k = none ∧ objects.content (plan.dest k) = some c
  others : ∀ k, (∀ c, ¬ Item plan objs k c) → objects.content k = objs.content k ∨
    ∃ j c, Item plan objs j c ∧ plan.dest j = k ∧ objects.content k = some c

/-- what a run does to the bucket -/
inductive Effect (move : Bool) (plan : Plan) (objs objects : Objects β) : Objects β → Prop
  | nothing : Effect move plan objs objects objects
  | write {k : Str} {c : List β} (hk : Item plan objs k c) :
    Effect move plan objs objects (objects.put (plan.dest k) c)
  | remove {gone : List Str} (hmove : gone ≠ [] → move = true)
    (hgone : ∀ k ∈ gone, Copied plan objs objects k) :
    Effect move plan objs objects (objects.filter fun o => decide (o.1 ∉ gone))

theorem content_put {k k' : Str} {c : List β} (hk : k ≠ []) :
    (objects.put k c).content k' = if k' = k then some c else objects.content k' := by
  rw [Objects.put, if_neg hk]
  exact lookup_setKey k k' c objects

theorem content_remove {gone : List Str} {k : Str} :
    Objects.content (objects.filter fun o => decide (o.1 ∉ gone)) k =
      if k ∈ gone then none else objects.content k := by
  have hfilter := @lookup_filter_key Str (List β) _ (fun k => decide (k ∉ gone)) objects k
  unfold Objects.content
  rw [hfilter]
  by_cases h : k ∈ gone
  · rw [if_pos h, if_neg (by simpa using h)]
  · rw [if_neg h, if_pos (by simpa using h)]

/-- a copy stays where it is -/
theorem Effect.content_dest (h : Effect move plan objs objects objects') (ha : Apart plan objs)
    {k : Str} {c : List β} (hk : Item plan objs k c)
    (hc : objects.content (plan.dest k) = some c) : objects'.content (plan.dest k) = some c := by
  cases h with
  | nothing => exact hc
  | @write j cj hj =>
    rw [content_put (ha.keyed j cj hj)]
    split
    · rename_i he
      have := ha.injective k c j cj hk hj he
      subst this
      rw [hj.eq hk]
    · exact hc
  | @remove gone hmove hgone =>
    rw [content_remove, if_neg]
    · exact hc
    · intro hmem
      obtain ⟨c', hitem, -⟩ := hgone _ hmem
      have hout := ha.outside k c hk
      rw [hitem.1] at hout
      cases hout

theorem Effect.copied (h : Effect move plan objs objects objects') (ha : Apart plan objs) {k : Str}
    (hk : Copied plan objs objects k) : Copied plan objs objects' k := by
  obtain ⟨c, hitem, hc⟩ := hk
  exact ⟨c, hitem, h.content_dest ha hitem hc⟩

/-- nothing is written where the plan takes objects up -/
theorem Effect.content_source (h : Effect move plan objs objects objects') (ha : Apart plan objs)
    {k : Str} (hsource : plan.source k = true) :
    objects'.content k = objects.content k ∨
      move = true ∧ objects'.content k = none ∧ Copied plan objs objects k := by
  cases h with
  | nothing => exact .inl rfl
  | @write j cj hj =>
    refine .inl ?_
    rw [content_put (ha.keyed j cj hj), if_neg]
    rintro rfl
    have hout := ha.outside j cj hj
    rw [hsource] at hout
    cases hout
  | @remove gone hmove hgone =>
    rw [content_remove]
    split
    · rename_i hmem
      exact .inr ⟨hmove (List.ne_nil_of_mem hmem), rfl, hgone k hmem⟩
    · exact .inl rfl

theorem Effect.kept (h : Effect move plan objs objects objects') (ha : Apart plan objs)
    (hk : Kept move plan objs objects) : Kept move plan objs objects' := by
  constructor
  · intro k c hitem
    obtain hsame | ⟨hmove, hnone, c', hitem', hc'⟩ := h.content_source ha hitem.1
    · rw [hsame]
      obtain hin | ⟨hmove, hnone, hc⟩ := hk.items k c hitem
      · exact .inl hin
      · exact .inr ⟨hmove, hnone, h.content_dest ha hitem hc⟩
    · rw [hitem'.eq hitem] at hc'
      exact .inr ⟨hmove, hnone, h.content_dest ha hitem hc'⟩
  · intro k hno
    have hold := hk.others k hno
    cases h with
    | nothing => exact hold
    | @write j cj hj =>
      by_cases he : k = plan.dest j
      · refine .inr ⟨j, cj, hj, he.symm, ?_⟩
        rw [content_put (ha.keyed j cj hj), if_pos he]
      · rw [content_put (ha.keyed j cj hj), if_neg he]
        exact hold
    | @remove gone hmove hgone =>
      rw [content_remove, if_neg]
      · exact hold
      · intro hmem
        obtain ⟨c, hitem, -⟩ := hgone k hmem
        exact hno c hitem

/-- what is found where the plan takes objects up was there at the start -/
theorem Kept.item (hk : Kept move plan objs objects) (ha : Apart plan objs) {k : Str} {c : List β}
    (hsource : plan.source k = true) (hc : objects.content k = some c) : Item plan objs k c := by
  refine ⟨hsource, ?_⟩
  cases hobjs : objs.content k with
  | some c' =>
    obtain hin | ⟨-, hnone, -⟩ := hk.items k c' ⟨hsource, hobjs⟩
    · rw [← hin, hc]
    · rw [hc] at hnone
      cases hnone
  | none =>
    have hno : ∀ c, ¬ Item plan objs k c := by
      rintro c' ⟨-, hc'⟩
      rw [hobjs] at hc'
      cases hc'
    obtain hsame | ⟨j, cj, hj, rfl, -⟩ := hk.others k hno
    · rw [hc, hobjs] at hsame
      cases hsame
    · have hout := ha.outside j cj hj
      rw [hsource] at hout
      cases hout

/-! ## what the store reads of a delete -/

theorem named_eq {batch : List Str} {body : List Char} (hreturn : ¬ HasReturn batch)
    (hbody : (deleteXml batch).encode = some body) (hread : (Xml.read body).isSome = true) :
    named batch = batch := by
  obtain ⟨document, hdocument⟩ := Option.isSome_iff_exists.mp hread
  have hsurrogate : ¬ HasSurrogate batch := by
    intro h
    rw [encode_of_hasSurrogate h] at hbody
    cases hbody
  obtain ⟨chars, rfl⟩ := chars_of_not_hasSurrogate hsurrogate
  have hcarried : ¬ HasUncarried (chars.map (List.map CodePoint.ofChar)) := by
    intro h
    rw [encode_deleteXml, Option.some.injEq] at hbody
    rw [← hbody, read_of_hasUncarried h] at hdocument
    cases hdocument
  have hback := (readsBack_iff hcarried).mpr hreturn _ _ hbody hdocument
  unfold named
  rw [hbody]
  show ((Xml.read body).map keyTexts).getD [] = _
  rw [hdocument]
  exact hback

theorem named_subset {batch : List Str} (hreturn : ¬ HasReturn batch) {k : Str}
    (hk : k ∈ named batch) : k ∈ batch := by
  cases hbody : (deleteXml batch).encode with
  | none =>
    rw [named, hbody] at hk
    cases hk
  | some body =>
    by_cases hread : (Xml.read body).isSome = true
    · rw [named_eq hreturn hbody hread] at hk
      exact hk
    · have hnone : Xml.read body = none := by simpa using hread
      have hempty : named batch = [] := by
        rw [named, hbody]
        show ((Xml.read body).map keyTexts).getD [] = []
        rw [hnone]
        rfl
      rw [hempty] at hk
      cases hk

theorem removed_subset {batch : List Str} {a : DeleteAnswer} (hreturn : ¬ HasReturn batch) {k : Str}
    (hk : k ∈ removed batch a) : k ∈ batch := by
  unfold removed at hk
  split at hk
  · exact named_subset hreturn (List.mem_filter.mp hk).1
  · cases hk

/-! ## the steps -/

namespace Transfer

variable {t t' : Transfer β}

/-- what a step can do -/
inductive Does (l : Limits) (move : Bool) (plan : Plan) (t : Transfer β) :
    TransferEvent → Transfer β → Prop
  | page {items : List ObjectInfo} {next after : Option Str} (hmain : t.main = .list after) :
    Does l move plan t (.page items next) { t with main := .yield items next }
  | submit {info : ObjectInfo} {rest : List ObjectInfo} {next : Option Str}
    (hmain : t.main = .items (info :: rest) next) :
    Does l move plan t .submit { t with
      main := .yield rest next
      tasks := t.tasks ++ [⟨info, plan.dest info.key, .queued⟩] }
  | pick {i : Nat} {task : Task β} (hi : t.tasks[i]? = some task) (hphase : task.phase = .queued) :
    Does l move plan t (.pick i) (t.beginCopy l i task)
  | copied {i : Nat} {task : Task β} {c : List β} (hi : t.tasks[i]? = some task)
    (hphase : task.phase = .copying) (hc : t.objects.content task.source.key = some c) :
    Does l move plan t (.answer i (.ok ()))
      { t.setPhase i task .copied with objects := t.objects.put task.key c }
  | created {i : Nat} {task : Task β} (hi : t.tasks[i]? = some task)
    (hphase : task.phase = .creating) :
    Does l move plan t (.answer i (.ok ()))
      (t.nextPart i task (copyRanges l.copyPartSize task.source.size) [])
  | part {i : Nat} {task : Task β} {range : Nat × Nat} {rest : List (Nat × Nat)}
    {parts : List (List β)} {c : List β} (hi : t.tasks[i]? = some task)
    (hphase : task.phase = .parts (range :: rest) parts)
    (hc : t.objects.content task.source.key = some c) :
    Does l move plan t (.answer i (.ok ())) (t.nextPart i task rest (parts ++ [slice c range]))
  | completed {i : Nat} {task : Task β} {parts : List (List β)} (hi : t.tasks[i]? = some task)
    (hphase : task.phase = .completing parts) :
    Does l move plan t (.answer i (.ok ()))
      { t.setPhase i task .copied with objects := t.objects.put task.key parts.flatten }
  | failed {i : Nat} {task : Task β} {why : Str} (hi : t.tasks[i]? = some task) :
    Does l move plan t (.answer i (.error why)) (t.fail i task why)
  | broke {i : Nat} {task : Task β} (hi : t.tasks[i]? = some task) :
    Does l move plan t (.broke i) { t.endTask i with failed := true }
  | added {i : Nat} {task : Task β} (hi : t.tasks[i]? = some task) (hphase : task.phase = .copied) :
    Does l move plan t (.add i) (if move then t.addToBatch l i task else t.endTask i)
  | deleted {i : Nat} {task : Task β} {batch : List Str} {a : DeleteAnswer} {u : Transfer β}
    (hi : t.tasks[i]? = some task) (hphase : task.phase = .deleting batch)
    (ha : answerable batch a = true) (hd : t.delete batch a = some u) :
    Does l move plan t (.deleted i a) (u.endTask i)
  | raised {i : Nat} {task : Task β} {a : DeleteAnswer} (hi : t.tasks[i]? = some task) :
    Does l move plan t (.deleted i a) { t.endTask i with failed := true }
  | flush (hmain : t.main = .drain) (htasks : t.tasks = []) (hfailed : t.failed = false)
    (hmove : move = true) :
    Does l move plan t .finish { t with
      main := .flush t.batch
      batch := []
      sent := t.sent ++ (named t.batch).map .delete }
  | finish (hmain : t.main = .drain) (htasks : t.tasks = []) (hfailed : t.failed = false)
    (hbatch : move = false ∨ t.batch = []) :
    Does l move plan t .finish { t with main := .done false }
  | flushed {batch : List Str} {a : DeleteAnswer} {u : Transfer β} (hmain : t.main = .flush batch)
    (ha : answerable batch a = true) (hd : t.delete batch a = some u) :
    Does l move plan t (.flushed a) { u with main := .done false }
  | flushRaised {a : DeleteAnswer} : Does l move plan t (.flushed a) { t with main := .stop }
  | interrupt : Does l move plan t .interrupt { t with
      main := .stop
      tasks := t.tasks.filter fun task => task.phase.isRunning }
  | stopped (hmain : t.main = .stop) : Does l move plan t .stopped { t with main := .done true }
  | again {r : Nat} {request : Request β} (hr : t.sent[r]? = some request) :
    Does l move plan t (.again r) { t with objects := request.apply t.objects }

theorem does_progress {i : Nat} {task : Task β} (hi : t.tasks[i]? = some task)
    (h : t.progress l i task = some t') : Does l move plan t (.answer i (.ok ())) t' := by
  unfold progress at h
  split at h
  · rename_i hphase
    obtain ⟨c, hc, h⟩ := Option.bind_eq_some_iff.mp h
    cases h
    exact .copied hi hphase hc
  · rename_i hphase
    cases h
    exact .created hi hphase
  · rename_i hphase
    obtain ⟨c, hc, h⟩ := Option.bind_eq_some_iff.mp h
    cases h
    exact .part hi hphase hc
  · rename_i hphase
    cases h
    exact .completed hi hphase
  · cases h

theorem step_cases {e : TransferEvent} (h : (machine l move plan).step t e = some t') :
    Does l move plan t e t' := by
  change step l move plan t e = some t' at h
  cases e with
  | page items next =>
    simp only [step] at h
    split at h
    · rename_i hmain
      cases h
      exact .page hmain
    · cases h
  | submit =>
    simp only [step] at h
    split at h
    · rename_i hmain
      split at h
      · cases h
        exact .submit hmain
      · cases h
    · cases h
  | pick i =>
    obtain ⟨task, hi, h⟩ := Option.bind_eq_some_iff.mp h
    split at h
    · rename_i hphase
      split at h
      · cases h
        exact .pick hi hphase
      · cases h
    · cases h
  | answer i a =>
    cases a with
    | ok =>
      obtain ⟨task, hi, h⟩ := Option.bind_eq_some_iff.mp h
      exact does_progress hi h
    | error why =>
      obtain ⟨task, hi, h⟩ := Option.bind_eq_some_iff.mp h
      split at h
      · cases h
        exact .failed hi
      · cases h
  | broke i =>
    obtain ⟨task, hi, h⟩ := Option.bind_eq_some_iff.mp h
    split at h
    · cases h
      exact .broke hi
    · cases h
  | add i =>
    obtain ⟨task, hi, h⟩ := Option.bind_eq_some_iff.mp h
    split at h
    · rename_i hphase
      cases h
      exact .added hi hphase
    · cases h
  | deleted i a =>
    obtain ⟨task, hi, h⟩ := Option.bind_eq_some_iff.mp h
    split at h
    · rename_i hphase
      split at h
      · rename_i ha
        split at h
        · rename_i hd
          cases h
          exact .deleted hi hphase ha hd
        · cases h
          exact .raised hi
      · cases h
    · cases h
  | finish =>
    simp only [step] at h
    split at h
    · rename_i hmain
      split at h
      · rename_i hready
        obtain ⟨htasks, hfailed⟩ := hready
        have htasks : t.tasks = [] := List.isEmpty_iff.mp htasks
        split at h
        · rename_i hflush
          cases h
          exact .flush hmain htasks hfailed hflush.1
        · rename_i hflush
          cases h
          refine .finish hmain htasks hfailed ?_
          cases move with
          | false => exact .inl rfl
          | true => exact .inr (by simpa using hflush)
      · cases h
    · cases h
  | flushed a =>
    simp only [step] at h
    split at h
    · rename_i hmain
      split at h
      · rename_i ha
        split at h
        · rename_i hd
          cases h
          exact .flushed hmain ha hd
        · cases h
          exact .flushRaised
      · cases h
    · cases h
  | interrupt =>
    simp only [step] at h
    split at h
    · cases h
    · cases h
      exact .interrupt
  | stopped =>
    simp only [step] at h
    split at h
    · rename_i hmain
      split at h
      · cases h
        exact .stopped hmain
      · cases h
    · cases h
  | again r =>
    obtain ⟨request, hr, h⟩ := Option.bind_eq_some_iff.mp h
    cases h
    exact .again hr

end Transfer

end Freepod.Cli
