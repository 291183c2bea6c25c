import Freepod.Base.Assoc
import Mathlib.Data.List.Induction
import Mathlib.Data.Prod.Lex
import Mathlib.Data.String.Basic

/-!
# What the bucket exporter knows

* `Bucket`, `Buckets`, `State`: the readings of the deployment buckets, by a, and whose turn
  the next read is.
* `State.setBuckets` … `State.succeeded`: the operations, under the source's names.  Each runs
  under the state's lock, so calls come one after another: `Call`, `State.call`, `State.run`.
* `oldest_spec`: the scan over the map finds the same bucket in every order of its entries.

An instant is a number, counted from Go's zero time.
-/

namespace Freepod.Exporter

open Freepod.Base

def bucketPrefix : String := "dep-"

/-- `strings.HasPrefix(alias, bucketPrefix)` -/
def hasBucketPrefix (a : String) : Bool := bucketPrefix.toList.isPrefixOf a.toList

theorem ne_empty_of_hasBucketPrefix {a : String} (h : hasBucketPrefix a = true) :
    a ≠ "" := by
  rintro rfl
  exact absurd h (by decide)

structure Bucket where
  bytes : Int := 0
  known : Bool := false
  readAt : Nat := 0
  triedAt : Nat := 0
  writtenAt : Nat := 0
  deriving DecidableEq

def Bucket.changed (b : Bucket) : Bool := decide (b.readAt < b.writtenAt)

/-- the map from the aliases to the buckets: one entry for each alias, in the order a scan of the
map happens to take -/
structure Buckets where
  entries : List (String × Bucket)
  distinct : (entries.map Prod.fst).Nodup
  named : ∀ e ∈ entries, hasBucketPrefix e.1 = true

namespace Buckets

def empty : Buckets := ⟨[], List.nodup_nil, fun _ h => nomatch h⟩

def aliases (m : Buckets) : List String := m.entries.map Prod.fst

def get (m : Buckets) (a : String) : Option Bucket := m.entries.lookup a

/-- a bucket of its own under a new alias; what is there already stays -/
def add (m : Buckets) (a : String) (h : hasBucketPrefix a = true) : Buckets where
  entries := if a ∈ m.aliases then m.entries else m.entries ++ [(a, {})]
  distinct := by
    split
    · exact m.distinct
    · rename_i hn
      rw [← setKey_of_notMem hn]
      exact nodup_setKey m.distinct
  named := by
    intro e he
    split at he
    · exact m.named e he
    · obtain he | he := List.mem_append.mp he
      · exact m.named e he
      · rw [List.mem_singleton.mp he]
        exact h

/-- an assignment to the fields of the bucket an alias has, if it has one -/
def update (m : Buckets) (a : String) (f : Bucket → Bucket) : Buckets where
  entries := m.entries.map fun e => (e.1, if e.1 = a then f e.2 else e.2)
  distinct := by
    rw [List.map_map]
    exact m.distinct
  named := by
    intro e he
    obtain ⟨e', he', rfl⟩ := List.mem_map.mp he
    exact m.named e' he'

/-- the entries whose alias passes, the others deleted -/
def keep (m : Buckets) (p : String → Bool) : Buckets where
  entries := m.entries.filter fun e => p e.1
  distinct := m.distinct.sublist (List.filter_sublist.map Prod.fst)
  named := fun e he => m.named e (List.mem_filter.mp he).1

/-- the bucket an alias has; an alias without one reads as a bucket of its own -/
def bucket (m : Buckets) (a : String) : Bucket := (m.get a).getD {}

theorem aliases_update (m : Buckets) (a : String) (f : Bucket → Bucket) :
    (m.update a f).aliases = m.aliases := by
  simp [aliases, update, Function.comp_def]

theorem mem_aliases_keep {m : Buckets} {p : String → Bool} {a : String} :
    a ∈ (m.keep p).aliases ↔ a ∈ m.aliases ∧ p a = true := by
  simp only [aliases, keep, List.mem_map, List.mem_filter]
  constructor
  · rintro ⟨e, ⟨he, hp⟩, rfl⟩
    exact ⟨⟨e, he, rfl⟩, hp⟩
  · rintro ⟨⟨e, he, rfl⟩, hp⟩
    exact ⟨e, ⟨he, hp⟩, rfl⟩

theorem get_eq_some {m : Buckets} {a : String} {b : Bucket} :
    m.get a = some b ↔ (a, b) ∈ m.entries :=
  lookup_eq_some_iff_mem m.distinct

theorem mem_aliases {m : Buckets} {a : String} : a ∈ m.aliases ↔ (a, m.bucket a) ∈ m.entries := by
  constructor
  · intro h
    obtain ⟨e, he, rfl⟩ := List.mem_map.mp h
    have hg : m.get e.1 = some e.2 := get_eq_some.mpr he
    rw [bucket, hg]
    exact he
  · intro h
    exact List.mem_map_of_mem (f := Prod.fst) h

theorem bucket_of_mem {m : Buckets} {e : String × Bucket} (h : e ∈ m.entries) :
    m.bucket e.1 = e.2 := by
  have hg : m.get e.1 = some e.2 := get_eq_some.mpr h
  rw [bucket, hg]
  rfl

theorem bucket_of_notMem {m : Buckets} {a : String} (h : a ∉ m.aliases) : m.bucket a = {} := by
  have hn : m.get a = none := lookup_eq_none_iff_notMem.mpr h
  rw [bucket, hn]
  rfl

theorem bucket_add (m : Buckets) (a : String) (h : hasBucketPrefix a = true) (k : String) :
    (m.add a h).bucket k = m.bucket k := by
  by_cases ha : a ∈ m.aliases
  · simp [bucket, get, add, ha]
  · simp only [bucket, get, add, ha, if_false]
    rw [← setKey_of_notMem ha, lookup_setKey]
    split
    · rename_i hk
      rw [hk, lookup_eq_none_iff_notMem.mpr ha]
      rfl
    · rfl

theorem bucket_keep {m : Buckets} {p : String → Bool} {k : String} (h : p k = true) :
    (m.keep p).bucket k = m.bucket k := by
  simp [bucket, get, keep, lookup_filter_key, h]

theorem bucket_update {m : Buckets} {k : String} (h : k ∈ m.aliases) (a : String)
    (f : Bucket → Bucket) :
    (m.update a f).bucket k = if k = a then f (m.bucket k) else m.bucket k := by
  have hg : m.get k = some (m.bucket k) := get_eq_some.mpr (mem_aliases.mp h)
  have hu : (m.update a f).get k = (m.get k).map fun b => if k = a then f b else b :=
    lookup_map_key (fun k b => if k = a then f b else b) m.entries k
  rw [bucket, hu, hg]
  rfl

/-- what an assignment leaves alone -/
theorem field_update {γ : Type*} {g : Bucket → γ} {f : Bucket → Bucket} (hf : ∀ b, g (f b) = g b)
    (m : Buckets) (a k : String) : g ((m.update a f).bucket k) = g (m.bucket k) := by
  by_cases h : k ∈ m.aliases
  · rw [bucket_update h]
    split
    · exact hf _
    · rfl
  · rw [bucket_of_notMem h, bucket_of_notMem]
    rw [aliases_update]
    exact h

end Buckets

/-- a bucket of the instance, as the admin API lists it -/
structure GarageBucket where
  id : String
  globalAliases : List String

structure State where
  buckets : Buckets
  aliasOf : List (String × String)
  changedTurn : Bool
  activityOK : Bool
  lastSuccess : Nat
  readErrors : Nat

/-- the bucket's `dep-` alias, or the empty text when it has none -/
def deploymentAlias (b : GarageBucket) : String :=
  (b.globalAliases.find? hasBucketPrefix).getD ""

theorem hasBucketPrefix_deploymentAlias {b : GarageBucket} (h : deploymentAlias b ≠ "") :
    hasBucketPrefix (deploymentAlias b) = true := by
  unfold deploymentAlias at h ⊢
  cases hf : b.globalAliases.find? hasBucketPrefix with
  | none =>
    rw [hf] at h
    exact absurd rfl h
  | some a => exact List.find?_some hf

/-- what the first loop of `SetBuckets` has collected: the buckets with the new ones added, the
aliases that are present, and the ids -/
abbrev Listed := Buckets × List String × List (String × String)

def listBucket (acc : Listed) (b : GarageBucket) : Listed :=
  if h : deploymentAlias b = "" then acc
  else (acc.1.add (deploymentAlias b) (hasBucketPrefix_deploymentAlias h),
    deploymentAlias b :: acc.2.1, setKey b.id (deploymentAlias b) acc.2.2)

namespace State

/-- `NewState` -/
def new : State := ⟨.empty, [], true, false, 0, 0⟩

def setBuckets (s : State) (list : List GarageBucket) : State :=
  let listed := list.foldl listBucket (s.buckets, [], [])
  { s with
    buckets := listed.1.keep fun a => decide (a ∈ listed.2.1)
    aliasOf := listed.2.2 }

/-- one size of a seed -/
def seedSize (m : Buckets) (e : String × Int) : Buckets :=
  if h : hasBucketPrefix e.1 = true then
    (m.add e.1 h).update e.1 fun b => if b.known then b else { b with bytes := e.2, known := true }
  else m

def seed (s : State) (sizes : List (String × Int)) : State :=
  { s with buckets := sizes.foldl seedSize s.buckets }

/-- the alias a request's name for a bucket stands for -/
def resolve (s : State) (name : String) : String := (s.aliasOf.lookup name).getD name

def markWrittenName (s : State) (at' : Nat) (m : Buckets) (name : String) : Buckets :=
  m.update (s.resolve name) fun b =>
    if b.writtenAt < at' then { b with writtenAt := at' } else b

def markWritten (s : State) (names : List String) (at' : Nat) : State :=
  if s.activityOK then
    { s with buckets := names.foldl (s.markWrittenName at') s.buckets }
  else s

def setActivityOK (s : State) (ok : Bool) : State := { s with activityOK := ok }

/-- one entry of the scan: the pick so far and when it was tried -/
def older (p : Bucket → Bool) (pick : String × Nat) (e : String × Bucket) : String × Nat :=
  if p e.2 = false then pick
  else if pick.1 = "" ∨ e.2.triedAt < pick.2 ∨ (e.2.triedAt = pick.2 ∧ e.1 < pick.1) then
    (e.1, e.2.triedAt)
  else pick

/-- the matching bucket tried longest ago, ties broken by alias, or the empty text -/
def oldest (s : State) (p : Bucket → Bool) : String :=
  (s.buckets.entries.foldl (older p) ("", 0)).1

/-- the alias `Next` returns, and whether it was chosen for having changed -/
def pick (s : State) : String × Bool :=
  if s.changedTurn = true ∧ s.activityOK = true ∧ s.oldest Bucket.changed ≠ "" then
    (s.oldest Bucket.changed, true)
  else (s.oldest fun _ => true, false)

/-- `Next` -/
def next (s : State) (now : Nat) : (String × Bool) × State :=
  (s.pick, { s with
    buckets := s.buckets.update s.pick.1 fun b => { b with triedAt := now }
    changedTurn := !s.changedTurn })

/-- `Read` -/
def read (s : State) (a : String) (bytes : Int) (at' : Nat) : State :=
  { s with
    buckets := s.buckets.update a fun b =>
      { b with bytes := bytes, known := true, readAt := at' }
    lastSuccess := at' }

/-- the counter is a `uint64` -/
def readFailed (s : State) : State := { s with readErrors := (s.readErrors + 1) % 2 ^ 64 }

def succeeded (s : State) (at' : Nat) : State :=
  if s.lastSuccess < at' then { s with lastSuccess := at' } else s

end State

/-- one call of the exporter -/
inductive Call where
  | setBuckets (list : List GarageBucket)
  | seed (sizes : List (String × Int))
  | markWritten (names : List String) (at' : Nat)
  | setActivityOK (ok : Bool)
  | next (now : Nat)
  | read (a : String) (bytes : Int) (at' : Nat)
  | readFailed
  | succeeded (at' : Nat)

namespace State

def call (s : State) : Call → State
  | .setBuckets list => s.setBuckets list
  | .seed sizes => s.seed sizes
  | .markWritten names at' => s.markWritten names at'
  | .setActivityOK ok => s.setActivityOK ok
  | .next now => (s.next now).2
  | .read a bytes at' => s.read a bytes at'
  | .readFailed => s.readFailed
  | .succeeded at' => s.succeeded at'

def run (s : State) (calls : List Call) : State := calls.foldl call s

/-- what the `Next` calls of a run returned, in their order -/
def picked (s : State) : List Call → List (String × Bool)
  | [] => []
  | .next now :: calls => (s.next now).1 :: picked (s.call (.next now)) calls
  | c :: calls => picked (s.call c) calls

end State

/-! ## the scan -/

section Scan

variable {p : Bucket → Bool} {l : List (String × Bucket)}

/-- the order in which the buckets were tried, ties broken by alias -/
def turn (e : String × Nat) : Nat ×ₗ String := toLex (e.2, e.1)

theorem turn_lt {e e' : String × Nat} :
    turn e < turn e' ↔ e.2 < e'.2 ∨ (e.2 = e'.2 ∧ e.1 < e'.1) :=
  Prod.Lex.toLex_lt_toLex

/-- what the scan has found: nothing where nothing matches, or the first in order -/
def Found (p : Bucket → Bool) (l : List (String × Bucket)) (pick : String × Nat) : Prop :=
  (pick = ("", 0) ∧ ∀ e ∈ l, p e.2 = false) ∨
    ∃ b, (pick.1, b) ∈ l ∧ p b = true ∧ b.triedAt = pick.2 ∧
      ∀ e ∈ l, p e.2 = true → turn pick ≤ turn (e.1, e.2.triedAt)

/-- one entry of the scan -/
theorem Found.older {pick : String × Nat} {e : String × Bucket} (h : Found p l pick)
    (hl : ∀ e ∈ l, e.1 ≠ "") : Found p (l ++ [e]) (State.older p pick e) := by
  unfold State.older
  by_cases hp : p e.2 = false
  · rw [if_pos hp]
    obtain ⟨he, hn⟩ | ⟨b, hb, hpb, ht, hmin⟩ := h
    · refine .inl ⟨he, ?_⟩
      intro e' he'
      obtain he' | he' := List.mem_append.mp he'
      · exact hn e' he'
      · rw [List.mem_singleton.mp he']
        exact hp
    · refine .inr ⟨b, List.mem_append_left _ hb, hpb, ht, ?_⟩
      intro e' he' hpe
      obtain he' | he' := List.mem_append.mp he'
      · exact hmin e' he' hpe
      · rw [List.mem_singleton.mp he', hp] at hpe
        cases hpe
  · rw [if_neg hp]
    have hpe : p e.2 = true := Bool.not_eq_false _ ▸ hp
    have hmem : (e.1, e.2) ∈ l ++ [e] := List.mem_append_right _ (List.mem_singleton.mpr rfl)
    split
    · rename_i hc
      refine .inr ⟨e.2, hmem, hpe, rfl, ?_⟩
      intro e' he' hp'
      obtain he' | he' := List.mem_append.mp he'
      · obtain ⟨-, hn⟩ | ⟨b, hb, hpb, ht, hmin⟩ := h
        · exact absurd hp' (by simp [hn e' he'])
        · have hlt : turn (e.1, e.2.triedAt) < turn pick :=
            turn_lt.mpr (hc.resolve_left (hl _ hb))
          exact hlt.le.trans (hmin e' he' hp')
      · rw [List.mem_singleton.mp he']
    · rename_i hc
      rw [not_or] at hc
      obtain ⟨rfl, -⟩ | ⟨b, hb, hpb, ht, hmin⟩ := h
      · exact absurd rfl hc.1
      · refine .inr ⟨b, List.mem_append_left _ hb, hpb, ht, ?_⟩
        intro e' he' hp'
        obtain he' | he' := List.mem_append.mp he'
        · exact hmin e' he' hp'
        · rw [List.mem_singleton.mp he']
          exact le_of_not_gt fun hlt => hc.2 (turn_lt.mp hlt)

theorem found_foldl (hl : ∀ e ∈ l, e.1 ≠ "") : Found p l (l.foldl (State.older p) ("", 0)) := by
  induction l using List.reverseRecOn with
  | nil => exact .inl ⟨rfl, fun _ h => nomatch h⟩
  | append_singleton l e ih =>
    rw [List.foldl_append]
    have hl' : ∀ e ∈ l, e.1 ≠ "" := fun e he => hl e (List.mem_append_left _ he)
    exact (ih hl').older hl'

end Scan

namespace State

variable {s : State} {p : Bucket → Bool}

def aliases (s : State) : List String := s.buckets.aliases

def bucket (s : State) (a : String) : Bucket := s.buckets.bucket a

/-- an alias' place in the order of the attempts -/
def turnOf (s : State) (a : String) : Nat ×ₗ String := turn (a, (s.bucket a).triedAt)

/-- **the scan**, whatever the order of the map: nothing is found where no bucket matches, and else
the matching bucket tried longest ago -/
theorem oldest_spec (s : State) (p : Bucket → Bool) :
    (s.oldest p = "" ∧ ∀ a ∈ s.aliases, p (s.bucket a) = false) ∨
      (s.oldest p ∈ s.aliases ∧ p (s.bucket (s.oldest p)) = true ∧
        ∀ a ∈ s.aliases, p (s.bucket a) = true → s.turnOf (s.oldest p) ≤ s.turnOf a) := by
  have hl : ∀ e ∈ s.buckets.entries, e.1 ≠ "" :=
    fun e he => ne_empty_of_hasBucketPrefix (s.buckets.named e he)
  obtain ⟨he, hn⟩ | ⟨b, hb, hp, ht, hmin⟩ := found_foldl (p := p) hl
  · left
    refine ⟨congrArg Prod.fst he, ?_⟩
    intro a ha
    exact hn _ (Buckets.mem_aliases.mp ha)
  · right
    have hbucket : s.bucket (s.oldest p) = b := Buckets.bucket_of_mem hb
    refine ⟨List.mem_map_of_mem (f := Prod.fst) hb, by rw [hbucket]; exact hp, ?_⟩
    intro a ha hpa
    rw [turnOf, hbucket, ht]
    exact hmin _ (Buckets.mem_aliases.mp ha) hpa

theorem ne_empty_of_mem {a : String} (h : a ∈ s.aliases) : a ≠ "" := by
  obtain ⟨e, he, rfl⟩ := List.mem_map.mp h
  exact ne_empty_of_hasBucketPrefix (s.buckets.named e he)

theorem oldest_mem (h : s.oldest p ≠ "") : s.oldest p ∈ s.aliases := by
  obtain ⟨he, -⟩ | ⟨hm, -⟩ := s.oldest_spec p
  · exact absurd he h
  · exact hm

theorem oldest_holds (h : s.oldest p ≠ "") : p (s.bucket (s.oldest p)) = true := by
  obtain ⟨he, -⟩ | ⟨-, hp, -⟩ := s.oldest_spec p
  · exact absurd he h
  · exact hp

/-- a match is found where there is one -/
theorem oldest_ne_empty {a : String} (ha : a ∈ s.aliases) (hp : p (s.bucket a) = true) :
    s.oldest p ≠ "" := by
  obtain ⟨-, hn⟩ | ⟨hm, -⟩ := s.oldest_spec p
  · exact absurd hp (by simp [hn a ha])
  · exact ne_empty_of_mem hm

theorem oldest_le {a : String} (ha : a ∈ s.aliases) (hp : p (s.bucket a) = true) :
    s.turnOf (s.oldest p) ≤ s.turnOf a := by
  obtain ⟨-, hn⟩ | ⟨-, -, hle⟩ := s.oldest_spec p
  · exact absurd hp (by simp [hn a ha])
  · exact hle a ha hp

end State

/-! ## what each call does to a bucket -/

section Calls

variable {α β γ : Type*}

/-- what no element of a list changes -/
theorem foldl_keeps {f : β → α → β} {g : β → γ} (h : ∀ m e, g (f m e) = g m) (l : List α) (m : β) :
    g (l.foldl f m) = g m := by
  induction l generalizing m with
  | nil => rfl
  | cons e l ih => rw [List.foldl_cons, ih, h]

theorem bucket_listBucket (acc : Listed) (b : GarageBucket) (k : String) :
    (listBucket acc b).1.bucket k = acc.1.bucket k := by
  unfold listBucket
  split
  · rfl
  · rename_i h
    exact Buckets.bucket_add _ _ (hasBucketPrefix_deploymentAlias h) k

end Calls

namespace State

variable {s : State} {a : String}

/-- a bucket that is still there is as it was -/
theorem bucket_setBuckets {list : List GarageBucket} (h : a ∈ (s.setBuckets list).aliases) :
    (s.setBuckets list).bucket a = s.bucket a := by
  have hk := (Buckets.mem_aliases_keep.mp h).2
  have hf := foldl_keeps (f := listBucket) (g := fun acc => acc.1.bucket a)
    (fun acc b => bucket_listBucket acc b a) list (s.buckets, [], [])
  exact (Buckets.bucket_keep hk).trans hf

/-- a seed changes no instant -/
theorem field_seed {γ : Type*} {g : Bucket → γ}
    (hg : ∀ (b : Bucket) n, g { b with bytes := n, known := true } = g b) (s : State)
    (sizes : List (String × Int)) (a : String) :
    g ((s.seed sizes).bucket a) = g (s.bucket a) := by
  refine foldl_keeps (f := seedSize) (g := fun m => g (m.bucket a)) ?_ sizes s.buckets
  intro m e
  unfold seedSize
  split
  · rename_i h
    refine (Buckets.field_update (f := fun b : Bucket =>
      if b.known then b else { b with bytes := e.2, known := true }) ?_ (m.add e.1 h) e.1 a).trans
      ?_
    · intro b
      split
      · rfl
      · exact hg b e.2
    · exact congrArg g (Buckets.bucket_add m e.1 h a)
  · rfl

theorem field_markWritten {γ : Type*} {g : Bucket → γ}
    (hg : ∀ (b : Bucket) n, g { b with writtenAt := n } = g b) (s : State) (names : List String)
    (at' : Nat) (a : String) : g ((s.markWritten names at').bucket a) = g (s.bucket a) := by
  unfold markWritten
  split
  · refine foldl_keeps (f := s.markWrittenName at') (g := fun m => g (m.bucket a)) ?_ names
      s.buckets
    intro m name
    refine Buckets.field_update (f := fun b : Bucket =>
      if b.writtenAt < at' then { b with writtenAt := at' } else b) ?_ m (s.resolve name) a
    intro b
    split
    · exact hg b at'
    · rfl
  · rfl

theorem field_next {γ : Type*} {g : Bucket → γ}
    (hg : ∀ (b : Bucket) n, g { b with triedAt := n } = g b) (s : State) (now : Nat) (a : String) : g ((s.next now).2.bucket a) = g (s.bucket a) :=
  Buckets.field_update (f := fun b => { b with triedAt := now }) (fun b => hg b now) s.buckets
    s.pick.1 a

theorem field_read {γ : Type*} {g : Bucket → γ}
    (hg : ∀ (b : Bucket) n t, g { b with bytes := n, known := true, readAt := t } = g b)
    (s : State) (a' : String) (bytes : Int) (at' : Nat) (a : String) :
    g ((s.read a' bytes at').bucket a) = g (s.bucket a) :=
  Buckets.field_update (f := fun b => { b with bytes := bytes, known := true, readAt := at' })
    (fun b => hg b bytes at') s.buckets a' a

theorem aliases_foldl_markWritten (s : State) (at' : Nat) (names : List String) (m : Buckets) :
    (names.foldl (s.markWrittenName at') m).aliases = m.aliases :=
  foldl_keeps (fun _ _ => Buckets.aliases_update ..) names m

theorem writtenAt_markWrittenName {m : Buckets} (h : a ∈ m.aliases) (s : State) (at' : Nat)
    (name : String) : ((s.markWrittenName at' m name).bucket a).writtenAt =
      if a = s.resolve name then max (m.bucket a).writtenAt at' else (m.bucket a).writtenAt := by
  rw [markWrittenName, Buckets.bucket_update h]
  split
  · split
    · rename_i hlt
      exact (max_eq_right hlt.le).symm
    · rename_i hlt
      exact (max_eq_left (not_lt.mp hlt)).symm
  · rfl

theorem writtenAt_le_foldl (s : State) (at' : Nat) (names : List String) {m : Buckets}
    (h : a ∈ m.aliases) :
    (m.bucket a).writtenAt ≤ ((names.foldl (s.markWrittenName at') m).bucket a).writtenAt := by
  induction names generalizing m with
  | nil => exact le_rfl
  | cons name names ih =>
    have h' : a ∈ (s.markWrittenName at' m name).aliases := by
      rw [markWrittenName, Buckets.aliases_update]
      exact h
    refine le_trans ?_ (ih h')
    rw [writtenAt_markWrittenName h]
    split
    · exact le_max_left ..
    · exact le_rfl

/-- a mark is recorded, whichever of its names the request used -/
theorem le_writtenAt_markWritten {names : List String} {name : String} (hok : s.activityOK = true)
    (hname : name ∈ names) (ha : s.resolve name ∈ s.aliases) (at' : Nat) :
    at' ≤ ((s.markWritten names at').bucket (s.resolve name)).writtenAt := by
  obtain ⟨l, r, rfl⟩ := List.append_of_mem hname
  have hl : s.resolve name ∈ (l.foldl (s.markWrittenName at') s.buckets).aliases := by
    rw [aliases_foldl_markWritten]
    exact ha
  have hn : s.resolve name ∈
      (s.markWrittenName at' (l.foldl (s.markWrittenName at') s.buckets) name).aliases := by
    rw [markWrittenName, Buckets.aliases_update]
    exact hl
  rw [markWritten, if_pos hok]
  show at' ≤ (((l ++ name :: r).foldl (s.markWrittenName at') s.buckets).bucket _).writtenAt
  rw [List.foldl_append, List.foldl_cons]
  refine le_trans ?_ (writtenAt_le_foldl s at' r hn)
  rw [writtenAt_markWrittenName hl, if_pos rfl]
  exact le_max_right ..

/-- only `Next` changes when a bucket was last tried -/
theorem triedAt_call {c : Call} (hc : ∀ now, c ≠ .next now) (ha : a ∈ (s.call c).aliases) :
    ((s.call c).bucket a).triedAt = (s.bucket a).triedAt := by
  cases c with
  | setBuckets list => exact congrArg Bucket.triedAt (bucket_setBuckets ha)
  | seed sizes => exact field_seed (fun _ _ => rfl) s sizes a
  | markWritten names at' => exact field_markWritten (fun _ _ => rfl) s names at' a
  | setActivityOK ok => rfl
  | next now => exact absurd rfl (hc now)
  | read a' bytes at' => exact field_read (fun _ _ _ => rfl) s a' bytes at' a
  | readFailed => rfl
  | succeeded at' =>
    show ((s.succeeded at').bucket a).triedAt = _
    unfold succeeded
    split <;> rfl

theorem triedAt_next (ha : a ∈ s.aliases) (now : Nat) :
    ((s.next now).2.bucket a).triedAt = if a = s.pick.1 then now else (s.bucket a).triedAt := by
  show ((s.buckets.update s.pick.1 _).bucket a).triedAt = _
  rw [Buckets.bucket_update ha]
  split <;> rfl

/-- only a read of the bucket changes the reading -/
theorem readAt_call {c : Call} (hc : ∀ bytes at', c ≠ .read a bytes at')
    (ha : a ∈ (s.call c).aliases) : ((s.call c).bucket a).readAt = (s.bucket a).readAt := by
  cases c with
  | setBuckets list => exact congrArg Bucket.readAt (bucket_setBuckets ha)
  | seed sizes => exact field_seed (fun _ _ => rfl) s sizes a
  | markWritten names at' => exact field_markWritten (fun _ _ => rfl) s names at' a
  | setActivityOK ok => rfl
  | next now => exact field_next (fun _ _ => rfl) s now a
  | read a' bytes at' =>
    have hne : a ≠ a' := by
      rintro rfl
      exact hc bytes at' rfl
    have hm : a ∈ s.buckets.aliases := by
      rw [← Buckets.aliases_update s.buckets a' _]
      exact ha
    show ((s.buckets.update a' _).bucket a).readAt = _
    rw [Buckets.bucket_update hm, if_neg hne]
    rfl
  | readFailed => rfl
  | succeeded at' =>
    show ((s.succeeded at').bucket a).readAt = _
    unfold succeeded
    split <;> rfl

theorem readAt_read (ha : a ∈ s.aliases) (bytes : Int) (at' : Nat) :
    ((s.read a bytes at').bucket a).readAt = at' := by
  show ((s.buckets.update a _).bucket a).readAt = _
  rw [Buckets.bucket_update ha, if_pos rfl]

/-- no call forgets a write -/
theorem writtenAt_le_call (c : Call) (ha : a ∈ s.aliases) (ha' : a ∈ (s.call c).aliases) :
    (s.bucket a).writtenAt ≤ ((s.call c).bucket a).writtenAt := by
  cases c with
  | setBuckets list => exact (congrArg Bucket.writtenAt (bucket_setBuckets ha')).ge
  | seed sizes => exact (field_seed (g := Bucket.writtenAt) (fun _ _ => rfl) s sizes a).ge
  | markWritten names at' =>
    show _ ≤ ((s.markWritten names at').bucket a).writtenAt
    unfold markWritten
    split
    · exact writtenAt_le_foldl s at' names ha
    · exact le_rfl
  | setActivityOK ok => exact le_rfl
  | next now => exact (field_next (g := Bucket.writtenAt) (fun _ _ => rfl) s now a).ge
  | read a' bytes at' =>
    exact (field_read (g := Bucket.writtenAt) (fun _ _ _ => rfl) s a' bytes at' a).ge
  | readFailed => exact le_rfl
  | succeeded at' =>
    show _ ≤ ((s.succeeded at').bucket a).writtenAt
    unfold succeeded
    split <;> exact le_rfl

end State

/-- the instants of the `Next` calls -/
def nexts : List Call → List Nat
  | [] => []
  | .next now :: calls => now :: nexts calls
  | _ :: calls => nexts calls

end Freepod.Exporter
