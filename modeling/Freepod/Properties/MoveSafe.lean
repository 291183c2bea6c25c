import Freepod.Properties.BucketMove

/-!
# A copy or a move inside the bucket loses nothing

`Sound` is kept by every step; `move_safe` says where each object is in every reachable state.
-/

namespace Freepod.Cli

open Base

variable {β : Type} {l : Limits} {move : Bool} {plan : Plan} {objs objects objects' : Objects β}

namespace Transfer

variable {t t' : Transfer β}

/-! ## nothing is lost -/

/-- what is known of an object that was listed -/
def Known (plan : Plan) (objs : Objects β) (info : ObjectInfo) : Prop :=
  ∃ c, Item plan objs info.key c ∧ info.size = c.length

/-- an object that may be deleted: it was copied, by a move -/
def Doomed (move : Bool) (plan : Plan) (objs objects : Objects β) (k : Str) : Prop :=
  move = true ∧ Copied plan objs objects k

/-- how far the copy of `c` has got -/
def PhaseSound (l : Limits) (move : Bool) (plan : Plan) (objs objects : Objects β) (key : Str)
    (c : List β) : Phase β → Prop
  | .parts rest parts =>
    ∃ first, copyRanges l.copyPartSize c.length = first ++ rest ∧ parts = first.map (slice c)
  | .completing parts => parts.flatten = c
  | .copied => objects.content key = some c
  | .deleting batch => ∀ k ∈ batch, Doomed move plan objs objects k
  | _ => True

def TaskSound (l : Limits) (move : Bool) (plan : Plan) (objs objects : Objects β) (task : Task β) :
    Prop :=
  ∃ c, Item plan objs task.source.key c ∧ task.source.size = c.length ∧
    task.key = plan.dest task.source.key ∧ PhaseSound l move plan objs objects task.key c task.phase

/-- a request writes an item's content where it goes, or deletes what may be deleted -/
def RequestSound (move : Bool) (plan : Plan) (objs objects : Objects β) : Request β → Prop
  | .copy source key => (∃ c, Item plan objs source c) ∧ key = plan.dest source
  | .complete key parts => ∃ k, Item plan objs k parts.flatten ∧ key = plan.dest k
  | .delete key => Doomed move plan objs objects key

def infos : Main → List ObjectInfo
  | .items rest _ => rest
  | _ => []

def flushing : Main → List Str
  | .flush batch => batch
  | _ => []

/-- what holds in every reachable state -/
structure Sound (l : Limits) (move : Bool) (plan : Plan) (objs : Objects β) (t : Transfer β) :
    Prop where
  kept : Kept move plan objs t.objects
  infos : ∀ info ∈ infos t.main, Known plan objs info
  tasks : ∀ task ∈ t.tasks, TaskSound l move plan objs t.objects task
  batch : ∀ k ∈ t.batch, Doomed move plan objs t.objects k
  flushing : ∀ k ∈ flushing t.main, Doomed move plan objs t.objects k
  sent : ∀ request ∈ t.sent, RequestSound move plan objs t.objects request

theorem infos_yield {rest : List ObjectInfo} {next : Option Str} {info : ObjectInfo}
    (h : info ∈ infos (.yield rest next)) : info ∈ rest := by
  unfold Main.yield at h
  split at h
  · cases h
  · cases h
  · exact h

theorem flushing_yield {rest : List ObjectInfo} {next : Option Str} :
    flushing (.yield rest next) = [] := by
  unfold Main.yield
  split <;> rfl

theorem Doomed.mono {k : Str} (ha : Apart plan objs) (h : Doomed move plan objs objects k)
    (e : Effect move plan objs objects objects') : Doomed move plan objs objects' k :=
  ⟨h.1, e.copied ha h.2⟩

theorem TaskSound.mono {task : Task β} (ha : Apart plan objs)
    (h : TaskSound l move plan objs objects task) (e : Effect move plan objs objects objects') :
    TaskSound l move plan objs objects' task := by
  obtain ⟨c, hitem, hsize, hkey, hphase⟩ := h
  refine ⟨c, hitem, hsize, hkey, ?_⟩
  cases hp : task.phase with
  | copied =>
    rw [hp] at hphase
    have hc : objects.content task.key = some c := hphase
    rw [hkey] at hc
    show objects'.content task.key = some c
    rw [hkey]
    exact e.content_dest ha hitem hc
  | deleting batch =>
    rw [hp] at hphase
    exact fun k hk => (hphase k hk).mono ha e
  | parts rest parts =>
    rw [hp] at hphase
    exact hphase
  | completing parts =>
    rw [hp] at hphase
    exact hphase
  | _ => trivial

theorem RequestSound.mono {request : Request β} (ha : Apart plan objs)
    (h : RequestSound move plan objs objects request)
    (e : Effect move plan objs objects objects') :
    RequestSound move plan objs objects' request := by
  cases request with
  | copy source key => exact h
  | complete key parts => exact h
  | delete key => exact Doomed.mono ha h e

/-- an effect on the bucket leaves what is known -/
theorem Sound.mono (ha : Apart plan objs) (h : Sound l move plan objs t)
    (e : Effect move plan objs t.objects objects') :
    Sound l move plan objs { t with objects := objects' } :=
  ⟨e.kept ha h.kept, h.infos, fun task htask => (h.tasks task htask).mono ha e,
    fun k hk => (h.batch k hk).mono ha e, fun k hk => (h.flushing k hk).mono ha e,
    fun request hr => (h.sent request hr).mono ha e⟩

/-- **what a request does when it takes effect**, however late -/
theorem RequestSound.effect {request : Request β} (ha : Apart plan objs)
    (h : RequestSound move plan objs objects request) (hk : Kept move plan objs objects) :
    Effect move plan objs objects (request.apply objects) := by
  cases request with
  | copy source key =>
    obtain ⟨⟨c, hitem⟩, rfl⟩ := h
    cases hc : objects.content source with
    | none =>
      rw [Request.apply, hc]
      exact .nothing
    | some c' =>
      rw [Request.apply, hc]
      exact .write (hk.item ha hitem.1 hc)
  | complete key parts =>
    obtain ⟨k, hitem, rfl⟩ := h
    exact .write hitem
  | delete key =>
    have hone : (Request.delete key).apply objects =
        objects.filter fun o => decide (o.1 ∉ [key]) := by
      simp [Request.apply]
    rw [hone]
    refine .remove (fun _ => h.1) ?_
    intro k hkey
    rw [List.mem_singleton.mp hkey]
    exact h.2

/-- an item comes to another phase -/
theorem tasks_setPhase {i : Nat} {task : Task β} {phase : Phase β}
    (h : ∀ task ∈ t.tasks, TaskSound l move plan objs objects task)
    (hi : t.tasks[i]? = some task) (hphase : ∀ c, Item plan objs task.source.key c →
      PhaseSound l move plan objs objects task.key c phase) :
    ∀ task' ∈ (t.setPhase i task phase).tasks, TaskSound l move plan objs objects task' := by
  intro task' hmem
  obtain hmem | rfl := List.mem_or_eq_of_mem_set hmem
  · exact h task' hmem
  · obtain ⟨c, hitem, hsize, hkey, -⟩ := h task (List.mem_of_getElem? hi)
    exact ⟨c, hitem, hsize, hkey, hphase c hitem⟩

theorem delete_cases {batch : List Str} {a : DeleteAnswer} {u : Transfer β}
    (h : t.delete batch a = some u) : ∃ tally,
      deleteBatch (fun _ => a) t.tally batch = .ok tally ∧ u = { t with
        tally := tally
        objects := t.objects.filter fun o => decide (o.1 ∉ removed batch a) } := by
  unfold delete at h
  split at h
  · rename_i tally htally
    cases h
    exact ⟨tally, htally, rfl⟩
  · cases h

/-- no key that a plan takes up has a carriage return -/
def NoReturns (plan : Plan) (objs : Objects β) : Prop :=
  ∀ k c, Item plan objs k c → CodePoint.ofChar '\r' ∉ k

theorem not_hasReturn {batch : List Str} (hreturn : NoReturns plan objs)
    (h : ∀ k ∈ batch, Doomed move plan objs objects k) :
    ¬ HasReturn batch := by
  rintro ⟨k, hk, hmem⟩
  obtain ⟨-, c, hitem, -⟩ := h k hk
  exact hreturn k c hitem hmem

/-- a batch that goes out names nothing but what may be deleted -/
theorem sent_deletes {batch : List Str} {sent : List (Request β)} (hreturn : NoReturns plan objs)
    (hsent : ∀ request ∈ sent, RequestSound move plan objs objects request)
    (h : ∀ k ∈ batch, Doomed move plan objs objects k) :
    ∀ request ∈ sent ++ (named batch).map .delete,
      RequestSound move plan objs objects request := by
  intro request hr
  obtain hr | hr := List.mem_append.mp hr
  · exact hsent request hr
  · obtain ⟨k, hk, rfl⟩ := List.mem_map.mp hr
    exact h k (named_subset (not_hasReturn hreturn h) hk)

theorem effect_delete {batch : List Str} {a : DeleteAnswer} {u : Transfer β}
    (hreturn : NoReturns plan objs)
    (hbatch : ∀ k ∈ batch, Doomed move plan objs t.objects k) (h : t.delete batch a = some u) :
    Effect move plan objs t.objects u.objects := by
  obtain ⟨tally, -, rfl⟩ := delete_cases h
  have hsub : ∀ k ∈ removed batch a, k ∈ batch :=
    fun k hk => removed_subset (not_hasReturn hreturn hbatch) hk
  refine .remove ?_ fun k hk => (hbatch k (hsub k hk)).2
  intro hne
  obtain ⟨k, hk⟩ := List.exists_mem_of_ne_nil _ hne
  exact (hbatch k (hsub k hk)).1

/-- an item that was copied is where it goes -/
theorem Sound.copied (h : Sound l move plan objs t) {i : Nat} {task : Task β}
    (hi : t.tasks[i]? = some task) (hphase : task.phase = .copied) :
    Copied plan objs t.objects task.source.key := by
  obtain ⟨c, hitem, -, hkey, hcopied⟩ := h.tasks task (List.mem_of_getElem? hi)
  rw [hphase] at hcopied
  have hc : t.objects.content task.key = some c := hcopied
  rw [hkey] at hc
  exact ⟨c, hitem, hc⟩

/-- the parts that are put together are the object -/
theorem Sound.completing (h : Sound l move plan objs t) {i : Nat} {task : Task β}
    {parts : List (List β)} (hi : t.tasks[i]? = some task)
    (hphase : task.phase = .completing parts) :
    Item plan objs task.source.key parts.flatten ∧ task.key = plan.dest task.source.key := by
  obtain ⟨c, hitem, -, hkey, hparts⟩ := h.tasks task (List.mem_of_getElem? hi)
  rw [hphase] at hparts
  have hparts : parts.flatten = c := hparts
  rw [hparts]
  exact ⟨hitem, hkey⟩

/-- a batch on its way out has only what may be deleted -/
theorem Sound.deleting (h : Sound l move plan objs t) {i : Nat} {task : Task β} {batch : List Str}
    (hi : t.tasks[i]? = some task) (hphase : task.phase = .deleting batch) :
    ∀ k ∈ batch, Doomed move plan objs t.objects k := by
  obtain ⟨c, -, -, -, hbatch⟩ := h.tasks task (List.mem_of_getElem? hi)
  rw [hphase] at hbatch
  exact hbatch

theorem Sound.flushed (h : Sound l move plan objs t) {batch : List Str}
    (hmain : t.main = .flush batch) : ∀ k ∈ batch, Doomed move plan objs t.objects k := by
  have hall := h.flushing
  rw [hmain] at hall
  exact hall

theorem Sound.beginCopy (h : Sound l move plan objs t) {i : Nat} {task : Task β}
    (hi : t.tasks[i]? = some task) : Sound l move plan objs (t.beginCopy l i task) := by
  unfold Transfer.beginCopy
  split
  · refine { h with tasks := tasks_setPhase h.tasks hi fun c _ => trivial, sent := ?_ }
    intro request hr
    obtain hr | hr := List.mem_append.mp hr
    · exact h.sent request hr
    · rw [List.mem_singleton.mp hr]
      obtain ⟨c, hitem, -, hkey, -⟩ := h.tasks task (List.mem_of_getElem? hi)
      exact ⟨⟨c, hitem⟩, hkey⟩
  · exact { h with tasks := tasks_setPhase h.tasks hi fun c _ => trivial }

theorem Sound.nextPart (h : Sound l move plan objs t) (hpart : 0 < l.copyPartSize) {i : Nat}
    {task : Task β} (hi : t.tasks[i]? = some task) {c : List β}
    (hitem : Item plan objs task.source.key c) {first rest : List (Nat × Nat)}
    (hranges : copyRanges l.copyPartSize c.length = first ++ rest) :
    Sound l move plan objs (t.nextPart i task rest (first.map (slice c))) := by
  unfold Transfer.nextPart
  split
  · have hall : (first.map (slice c)).flatten = c := by
      have hslices := flatMap_slice hpart c
      rw [hranges, List.append_nil] at hslices
      exact hslices
    refine { h with tasks := tasks_setPhase h.tasks hi ?_, sent := ?_ }
    · intro c' hitem'
      rw [hitem'.eq hitem]
      exact hall
    · intro request hr
      obtain hr | hr := List.mem_append.mp hr
      · exact h.sent request hr
      · rw [List.mem_singleton.mp hr]
        obtain ⟨-, -, -, hkey, -⟩ := h.tasks task (List.mem_of_getElem? hi)
        refine ⟨task.source.key, ?_, hkey⟩
        rw [hall]
        exact hitem
  · refine { h with tasks := tasks_setPhase h.tasks hi ?_ }
    intro c' hitem'
    rw [hitem'.eq hitem]
    exact ⟨first, hranges, rfl⟩

theorem Sound.addToBatch (h : Sound l move plan objs t) (hreturn : NoReturns plan objs)
    (hmove : move = true) {i : Nat} {task : Task β} (hi : t.tasks[i]? = some task)
    (hphase : task.phase = .copied) : Sound l move plan objs (t.addToBatch l i task) := by
  have hbatch : ∀ k ∈ t.batch ++ [task.source.key], Doomed move plan objs t.objects k := by
    intro k hk
    obtain hk | hk := List.mem_append.mp hk
    · exact h.batch k hk
    · rw [List.mem_singleton.mp hk]
      exact ⟨hmove, h.copied hi hphase⟩
  unfold Transfer.addToBatch
  dsimp only
  split
  · exact { h with
      tasks := fun task' hmem => h.tasks task' (List.mem_of_mem_eraseIdx hmem)
      batch := hbatch }
  · exact { h with
      tasks := tasks_setPhase h.tasks hi fun c _ => hbatch
      batch := List.forall_mem_nil _
      sent := sent_deletes hreturn h.sent hbatch }

/-- **what a step does to the bucket** -/
theorem Sound.effect {e : TransferEvent} (h : Sound l move plan objs t) (ha : Apart plan objs)
    (hreturn : NoReturns plan objs) (hd : Does l move plan t e t') :
    Effect move plan objs t.objects t'.objects := by
  cases hd with
  | pick =>
    unfold Transfer.beginCopy
    split <;> exact .nothing
  | @copied i task c hi hphase hc =>
    obtain ⟨c', hitem, -, hkey, -⟩ := h.tasks task (List.mem_of_getElem? hi)
    rw [hkey]
    exact .write (h.kept.item ha hitem.1 hc)
  | created =>
    unfold Transfer.nextPart
    split <;> exact .nothing
  | part =>
    unfold Transfer.nextPart
    split <;> exact .nothing
  | @completed i task parts hi hphase =>
    obtain ⟨hitem, hkey⟩ := h.completing hi hphase
    rw [hkey]
    exact .write hitem
  | added =>
    split
    · unfold Transfer.addToBatch
      dsimp only
      split <;> exact .nothing
    · exact .nothing
  | @deleted i task batch a u hi hphase hanswer hdelete =>
    have he := effect_delete hreturn (h.deleting hi hphase) hdelete
    exact he
  | @flushed batch a u hmain hanswer hdelete =>
    have he := effect_delete hreturn (h.flushed hmain) hdelete
    exact he
  | again hr => exact (h.sent _ (List.mem_of_getElem? hr)).effect ha h.kept
  | _ => exact .nothing

/-- **one step keeps everything** -/
theorem Sound.step {e : TransferEvent} (h : Sound l move plan objs t) (ha : Apart plan objs)
    (hreturn : NoReturns plan objs) (hpart : 0 < l.copyPartSize)
    (hlisted : ∀ items next, e = .page items next → ∀ info ∈ items, Known plan objs info)
    (hd : Does l move plan t e t') : Sound l move plan objs t' := by
  have hend : ∀ i, ∀ task ∈ (t.endTask i).tasks, TaskSound l move plan objs t.objects task :=
    fun i task hmem => h.tasks task (List.mem_of_mem_eraseIdx hmem)
  have heffect := h.effect ha hreturn hd
  cases hd with
  | page hmain =>
    refine { h with infos := ?_, flushing := ?_ }
    · intro info hinfo
      exact hlisted _ _ rfl info (infos_yield hinfo)
    · rw [flushing_yield]
      exact List.forall_mem_nil _
  | @submit info rest next hmain =>
    have hinfos : ∀ info' ∈ info :: rest, Known plan objs info' := by
      have hall := h.infos
      rw [hmain] at hall
      exact hall
    refine { h with infos := ?_, tasks := ?_, flushing := ?_ }
    · intro info' hinfo
      exact hinfos info' (List.mem_cons_of_mem _ (infos_yield hinfo))
    · intro task hmem
      obtain hmem | hmem := List.mem_append.mp hmem
      · exact h.tasks task hmem
      · rw [List.mem_singleton.mp hmem]
        obtain ⟨c, hitem, hsize⟩ := hinfos info List.mem_cons_self
        exact ⟨c, hitem, hsize, rfl, trivial⟩
    · rw [flushing_yield]
      exact List.forall_mem_nil _
  | pick hi hphase => exact h.beginCopy hi
  | @copied i task c hi hphase hc =>
    obtain ⟨c', hitem', -, hkey, -⟩ := h.tasks task (List.mem_of_getElem? hi)
    have hitem := h.kept.item ha hitem'.1 hc
    have h' := h.mono ha heffect
    refine { h' with tasks := tasks_setPhase h'.tasks hi ?_ }
    intro c'' hitem''
    show Objects.content _ task.key = some c''
    rw [content_put (hkey ▸ ha.keyed _ _ hitem), if_pos rfl, hitem.eq hitem'']
  | @created i task hi hphase =>
    obtain ⟨c, hitem, hsize, -, -⟩ := h.tasks task (List.mem_of_getElem? hi)
    have hranges : copyRanges l.copyPartSize c.length = [] ++ copyRanges l.copyPartSize c.length :=
      rfl
    have hnext := h.nextPart hpart hi hitem hranges
    rw [hsize]
    exact hnext
  | @part i task range rest parts c hi hphase hc =>
    obtain ⟨c', hitem', -, -, hparts⟩ := h.tasks task (List.mem_of_getElem? hi)
    have hitem := h.kept.item ha hitem'.1 hc
    rw [hphase, hitem'.eq hitem] at hparts
    obtain ⟨first, hranges, rfl⟩ := hparts
    rw [List.append_cons] at hranges
    have hnext := h.nextPart hpart hi hitem hranges
    rw [List.map_append] at hnext
    exact hnext
  | @completed i task parts hi hphase =>
    obtain ⟨hitem, hkey⟩ := h.completing hi hphase
    have h' := h.mono ha heffect
    refine { h' with tasks := tasks_setPhase h'.tasks hi ?_ }
    intro c' hitem'
    show Objects.content _ task.key = some c'
    rw [content_put (hkey ▸ ha.keyed _ _ hitem), if_pos rfl, hitem.eq hitem']
  | failed hi => exact { h with tasks := hend _ }
  | added hi hphase =>
    split
    · exact h.addToBatch hreturn ‹_› hi hphase
    · exact { h with tasks := hend _ }
  | @deleted i task batch a u hi hphase hanswer hdelete =>
    have h' := h.mono ha heffect
    obtain ⟨tally, -, rfl⟩ := delete_cases hdelete
    exact { h' with tasks := fun task hmem => h'.tasks task (List.mem_of_mem_eraseIdx hmem) }
  | broke => exact { h with tasks := hend _ }
  | raised => exact { h with tasks := hend _ }
  | flush hmain htasks hfailed hmove =>
    exact { h with
      infos := List.forall_mem_nil _
      batch := List.forall_mem_nil _
      flushing := h.batch
      sent := sent_deletes hreturn h.sent h.batch }
  | finish hmain htasks hfailed hbatch =>
    exact { h with
      infos := List.forall_mem_nil _
      flushing := List.forall_mem_nil _ }
  | flushed hmain hanswer hdelete =>
    have h' := h.mono ha heffect
    obtain ⟨tally, -, rfl⟩ := delete_cases hdelete
    exact { h' with
      infos := List.forall_mem_nil _
      flushing := List.forall_mem_nil _ }
  | flushRaised =>
    exact { h with
      infos := List.forall_mem_nil _
      flushing := List.forall_mem_nil _ }
  | interrupt =>
    exact { h with
      infos := List.forall_mem_nil _
      tasks := fun task hmem => h.tasks task (List.mem_of_mem_filter hmem)
      flushing := List.forall_mem_nil _ }
  | stopped hmain =>
    exact { h with
      infos := List.forall_mem_nil _
      flushing := List.forall_mem_nil _ }
  | again hr => exact h.mono ha heffect

/-! ## plans that `planWithin` makes -/

/-- no object lands under the folder it is taken from, and none on the empty key, as the marker of
a folder does that goes to the root -/
structure Outside (plan : Plan) (objs : Objects β) : Prop where
  apart : ∀ k c, Item plan objs k c → plan.source (plan.dest k) = false
  keyed : ∀ k c, Item plan objs k c → plan.dest k ≠ []

theorem planWithin_cases {path arg destination : Str}
    (h : planWithin objs path arg destination move = .ok plan) :
    (∃ info key, plan = .object info key ∧ Known plan objs info) ∨
      ∃ folder base, plan = .below folder base ∧ ¬ folder <+: base := by
  have hhead : ∀ {key : Str} {info : ObjectInfo}, head objs key = some info →
      ∃ c, objs.content info.key = some c ∧ info.size = c.length := by
    intro key info hinfo
    obtain ⟨c, hc, rfl⟩ := Option.map_eq_some_iff.mp hinfo
    exact ⟨c, hc, rfl⟩
  have hobject : ∀ {info : ObjectInfo}, resolve objs path = some (.object info) →
      ∃ c, objs.content info.key = some c ∧ info.size = c.length := by
    intro info hinfo
    unfold resolve at hinfo
    split at hinfo
    · cases hinfo
    split at hinfo
    · split at hinfo <;> cases hinfo
    split at hinfo
    · rename_i hfound
      cases hinfo
      exact hhead hfound
    · split at hinfo <;> cases hinfo
  unfold planWithin at h
  split at h
  · cases h
  · rename_i info hinfo
    dsimp only at h
    generalize (if destination = [] ∨ endsInSlash destination = true then
      destination ++ basename info.key else destination) = key at h
    split at h
    · cases h
    · cases h
      obtain ⟨c, hc, hsize⟩ := hobject hinfo
      exact .inl ⟨info, key, rfl, c, ⟨decide_eq_true rfl, hc⟩, hsize⟩
  · rename_i folder hfolder
    dsimp only at h
    split at h
    · cases h
    split at h
    · cases h
    · rename_i hinside
      cases h
      refine .inr ⟨folder, asPrefix destination, rfl, ?_⟩
      rw [← List.isPrefixOf_iff_prefix]
      exact hinside

theorem apart_of_outside {path arg destination : Str}
    (h : planWithin objs path arg destination move = .ok plan) (hout : Outside plan objs) :
    Apart plan objs := by
  refine ⟨hout.apart, hout.keyed, ?_⟩
  intro j c k c' hj hk hdest
  obtain ⟨info, key, rfl, -⟩ | ⟨folder, base, rfl, -⟩ := planWithin_cases h
  · exact (of_decide_eq_true hj.1).trans (of_decide_eq_true hk.1).symm
  · obtain ⟨j', rfl⟩ := List.isPrefixOf_iff_prefix.mp hj.1
    obtain ⟨k', rfl⟩ := List.isPrefixOf_iff_prefix.mp hk.1
    simp only [Plan.dest, List.drop_left, List.append_cancel_left_eq] at hdest
    rw [hdest]

/-- what goes elsewhere than to an ancestor lands outside -/
theorem outside_of_not_ancestor {folder base : Str} (hinside : ¬ folder <+: base)
    (hancestor : ¬ base <+: folder) : Outside (.below folder base) objs := by
  have hbase : ∀ k : Str, base <+: base ++ k.drop folder.length := fun k => List.prefix_append _ _
  constructor
  · intro k c hk
    rw [Bool.eq_false_iff]
    intro hsource
    have hfolder : folder <+: base ++ k.drop folder.length :=
      List.isPrefixOf_iff_prefix.mp hsource
    exact (List.prefix_or_prefix_of_prefix hfolder (hbase k)).elim hinside hancestor
  · intro k c hk hempty
    have hnil : base = [] := (List.append_eq_nil_iff.mp hempty).1
    exact hancestor (hnil ▸ List.nil_prefix)

theorem start_sound {path arg destination : Str}
    (h : planWithin objs path arg destination move = .ok plan) :
    Sound l move plan objs (start objs plan) := by
  have hkept : Kept move plan objs objs := ⟨fun k c hk => .inl hk.2, fun k _ => .inl rfl⟩
  obtain ⟨info, key, rfl, hknown⟩ | ⟨folder, base, rfl, -⟩ := planWithin_cases h
  · refine ⟨hkept, ?_, List.forall_mem_nil _, List.forall_mem_nil _, List.forall_mem_nil _,
      List.forall_mem_nil _⟩
    intro info' hinfo
    rw [List.mem_singleton.mp hinfo]
    exact hknown
  · exact ⟨hkept, List.forall_mem_nil _, List.forall_mem_nil _, List.forall_mem_nil _,
      List.forall_mem_nil _, List.forall_mem_nil _⟩

/-- a key comes after the point a listing goes on from -/
def Later (after : Option Str) (k : Str) : Prop := ∀ a, after = some a → a < k

/-- the store lists what is there: only objects the plan takes up, as they are; and all of them up
to the next page -/
structure Lists (plan : Plan) (t : Transfer β) (e : TransferEvent) : Prop where
  found : ∀ items next, e = .page items next → ∀ info ∈ items, plan.source info.key = true ∧
    ∃ c, t.objects.content info.key = some c ∧ info.size = c.length
  all : ∀ items next after, e = .page items next → t.main = .list after → ∀ k,
    plan.source k = true → (t.objects.content k).isSome = true → Later after k →
      (∃ info ∈ items, info.key = k) ∨ ∃ n, next = some n ∧ n < k

theorem Sound.lists {e : TransferEvent} (h : Sound l move plan objs t) (ha : Apart plan objs)
    (hlists : Lists plan t e) :
    ∀ items next, e = .page items next → ∀ info ∈ items, Known plan objs info := by
  intro items next he info hinfo
  obtain ⟨hsource, c, hc, hsize⟩ := hlists.found items next he info hinfo
  exact ⟨c, h.kept.item ha hsource hc, hsize⟩

theorem Sound.reach (h : Sound l move plan objs t) (ha : Apart plan objs)
    (hreturn : NoReturns plan objs) (hpart : 0 < l.copyPartSize)
    (hr : (machine l move plan).Reach (Lists plan) t t') : Sound l move plan objs t' :=
  hr.invariant h fun _ _ _ hs hok hstep =>
    hs.step ha hreturn hpart (hs.lists ha hok) (step_cases hstep)

/-- **a move or a copy inside the bucket loses nothing**: whatever requests fail, or take effect
late, and wherever the run is interrupted, every object that was taken up is where it was, or, by a
move, is gone from there and is where it goes, whole; nothing else changed but the places objects
go to -/
theorem move_safe {path arg destination : Str}
    (hplan : planWithin objs path arg destination move = .ok plan) (hout : Outside plan objs)
    (hreturn : NoReturns plan objs) (hpart : 0 < l.copyPartSize)
    (h : (machine l move plan).Reach (Lists plan) (start objs plan) t) :
    Kept move plan objs t.objects :=
  ((start_sound hplan).reach (apart_of_outside hplan hout) hreturn hpart h).kept

namespace Sample

/-- what `Lists` says of a page, decided -/
def lists (plan : Plan) (t : Transfer Nat) : TransferEvent → Bool
  | .page items next =>
    (items.all fun info => plan.source info.key &&
      decide ((t.objects.content info.key).map List.length = some info.size)) &&
    t.objects.all fun o => !plan.source o.1 || (match t.main with
      | .list (some a) => !decide (a < o.1)
      | _ => false) || items.any (fun info => decide (info.key = o.1)) ||
        next.any fun n => decide (n < o.1)
  | _ => true

theorem lists_ok {plan : Plan} {t : Transfer Nat} {e : TransferEvent} (h : lists plan t e = true) :
    Lists plan t e := by
  constructor
  · rintro items next rfl info hinfo
    rw [lists, Bool.and_eq_true] at h
    have hone := List.all_eq_true.mp h.1 info hinfo
    rw [Bool.and_eq_true, decide_eq_true_eq] at hone
    obtain ⟨c, hc, hsize⟩ := Option.map_eq_some_iff.mp hone.2
    exact ⟨hone.1, c, hc, hsize.symm⟩
  · rintro items next after rfl hmain k hsource hsome hlater
    rw [lists, Bool.and_eq_true] at h
    obtain ⟨c, hc⟩ := Option.isSome_iff_exists.mp hsome
    have hone := List.all_eq_true.mp h.2 (k, c) (mem_of_lookup hc)
    rw [hmain] at hone
    simp only [hsource, Bool.not_true, Bool.false_or, Bool.or_eq_true, List.any_eq_true,
      decide_eq_true_eq, Option.any_eq_true] at hone
    obtain (hno | hin) | hnext := hone
    · cases after with
      | none => cases hno
      | some a => exact absurd (hlater a rfl) (by simpa using hno)
    · exact .inl hin
    · exact .inr hnext

/-- small limits: an object of three bytes goes in two parts, and a batch has two keys -/
def small : Limits := ⟨2, 2, 2, 2⟩

def bucket : Objects Nat :=
  [(Str.lit "a/x", [1, 2, 3]), (Str.lit "a/y", [4]), (Str.lit "b", [5])]

def toC : Plan := .below (Str.lit "a/") (Str.lit "c/")

theorem planned : planWithin bucket (Str.lit "a") (Str.lit ":a") (Str.lit "c") true = .ok toC := by
  rfl

theorem toC_outside : Outside toC bucket :=
  outside_of_not_ancestor (by decide) (by decide)

theorem bucket_noReturns : NoReturns toC bucket := by
  intro k c hitem
  have hmem := mem_of_lookup hitem.2
  have hall : ∀ o ∈ bucket, CodePoint.ofChar '\r' ∉ o.1 := by decide
  exact hall _ hmem

def isDone (raised : Bool) : Main → Bool
  | .done r => r == raised
  | _ => false

theorem isDone_iff {raised : Bool} {main : Main} :
    isDone raised main = true ↔ main = .done raised := by
  cases main <;> simp [isDone]

def listed : List TransferEvent :=
  [.page [⟨Str.lit "a/x", 3⟩, ⟨Str.lit "a/y", 1⟩] none, .submit, .submit]

end Sample

/-- a copy that timed out, but was made; then Ctrl-C -/
theorem move_safe_late : ∃ t : Transfer Nat,
    t.objects.content (Str.lit "c/y") = some [4] ∧ t.main = .done true ∧
      Kept true Sample.toC Sample.bucket t.objects := by
  have hrun : ((machine Sample.small true Sample.toC).runIf (Sample.lists Sample.toC)
      (start Sample.bucket Sample.toC) (Sample.listed ++ [.pick 1, .again 0,
        .answer 1 (.error (Str.lit "timed out")), .interrupt, .stopped])).any (fun t =>
          decide (t.objects.content (Str.lit "c/y") = some [4]) && Sample.isDone true t.main) =
            true := by
    decide +kernel
  obtain ⟨t, ht, -, hp⟩ := Machine.exists_reach_of_runIf (P := fun _ => True)
    (fun _ _ _ _ _ _ => trivial) (fun _ _ _ h => Sample.lists_ok h) trivial hrun
  obtain ⟨hcopied, hend⟩ := (Bool.and_eq_true _ _).mp hp
  exact ⟨t, of_decide_eq_true hcopied, Sample.isDone_iff.mp hend, move_safe Sample.planned
    Sample.toC_outside Sample.bucket_noReturns (by decide) ht⟩

end Transfer

end Freepod.Cli
