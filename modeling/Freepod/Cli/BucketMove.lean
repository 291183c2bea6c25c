import Mathlib.Algebra.Ring.Nat
import Mathlib.Order.Fin.Basic
import Freepod.Base.Machine
import Freepod.Properties.BatchDelete

/-!
# Copies and moves inside the bucket

`_plan_within`, `copy_object`, `Deleter` and `Pool` (`freepod/objects.py`).

* `planWithin` decides what a `cp` or `mv` with both sides in the bucket does, or refuses it.
* `Transfer` runs a plan: the listing goes on while workers copy and delete, any request may fail,
  the run may be interrupted, and a request may take effect long after it was given up.
-/

namespace Freepod.Cli

open Base

variable {β : Type}

/-! ## plans -/

/-- what a listing or a `HEAD` says of an object -/
structure ObjectInfo where
  key : Str
  size : Nat
  deriving DecidableEq

/-- the objects of a bucket -/
abbrev Objects (β : Type) := List (Str × List β)

def Objects.content (objects : Objects β) (key : Str) : Option (List β) :=
  @List.lookup Str (List β) instBEqOfDecidableEq key objects

/-- a request that writes an object; without a key it is one on the bucket, which it leaves as it
is (`Bucket.url`) -/
def Objects.put (objects : Objects β) (key : Str) (content : List β) : Objects β :=
  if key = [] then objects else Base.setKey key content objects

def slash : CodePoint := .ofChar '/'

def endsInSlash (path : Str) : Bool := path.getLast? == some slash

/-- `as_prefix` -/
def asPrefix (path : Str) : Str :=
  if path = [] ∨ endsInSlash path = true then path else path ++ [slash]

/-- `basename` -/
def basename (key : Str) : Str :=
  let named := key.reverse.dropWhile fun p => decide (p = slash)
  (named.takeWhile fun p => decide (p ≠ slash)).reverse

/-- `Bucket.head` -/
def head (objects : Objects β) (key : Str) : Option ObjectInfo :=
  (objects.content key).map fun content => ⟨key, content.length⟩

/-- `Bucket.has_prefix` -/
def hasPrefix (objects : Objects β) (path : Str) : Bool := objects.any fun o => path.isPrefixOf o.1

inductive Target where
  | object (info : ObjectInfo)
  | below (folder : Str)

/-- `resolve`: the exact object first, then what is below it -/
def resolve (objects : Objects β) (path : Str) : Option Target :=
  if path = [] then some (.below [])
  else if endsInSlash path then if hasPrefix objects path then some (.below path) else none
  else
    match head objects path with
    | some info => some (.object info)
    | none =>
      if hasPrefix objects (path ++ [slash]) then some (.below (path ++ [slash])) else none

inductive Refusal where
  | noSuch (arg : Str)
  | ontoItself (arg : Str) (move : Bool)
  | inside (destination arg : Str)

def Refusal.text : Refusal → Str
  | .noSuch arg => Str.lit "'" ++ arg ++ Str.lit "': no such object or prefix in the bucket."
  | .ontoItself arg move =>
    Str.lit "'" ++ arg ++ Str.lit "' would be " ++ Str.lit (if move then "moved" else "copied") ++
      Str.lit " onto itself."
  | .inside destination arg =>
    Str.lit "'" ++ destination ++ Str.lit "' is inside '" ++ arg ++
      Str.lit "', so the copy would pick up its own output."

inductive Plan where
  | object (info : ObjectInfo) (key : Str)
  | below (folder base : Str)
  deriving DecidableEq

/-- `_plan_within` -/
def planWithin (objects : Objects β) (path sourceArg destination : Str) (move : Bool) :
    Except Refusal Plan :=
  match resolve objects path with
  | none => .error (.noSuch sourceArg)
  | some (.object info) =>
    let key := if destination = [] ∨ endsInSlash destination = true then
      destination ++ basename info.key else destination
    if key = info.key then .error (.ontoItself sourceArg move) else .ok (.object info key)
  | some (.below folder) =>
    let base := asPrefix destination
    if base = folder then .error (.ontoItself sourceArg move)
    else if folder.isPrefixOf base then .error (.inside destination sourceArg)
    else .ok (.below folder base)

namespace Plan

/-- the keys a plan takes up -/
def source : Plan → Str → Bool
  | .object info _, k => decide (k = info.key)
  | .below folder _, k => folder.isPrefixOf k

/-- and where it puts each -/
def dest : Plan → Str → Str
  | .object _ key, _ => key
  | .below folder base, k => base ++ k.drop folder.length

end Plan

/-! ## runs -/

/-- the constants of a run -/
structure Limits where
  maxCopyObjectBytes : Nat
  copyPartSize : Nat
  deleteBatch : Nat
  workers : Nat

/-- `MAX_COPY_OBJECT_BYTES`, `COPY_PART_SIZE`, `DELETE_BATCH`, `WORKERS` -/
def limits : Limits := ⟨5 * 1024 ^ 3, 1024 * (1024 * 1024), 1000, 4⟩

/-- a request that has been sent, and may take effect at any time from then on -/
inductive Request (β : Type) where
  | copy (source key : Str)
  | complete (key : Str) (parts : List (List β))
  | delete (key : Str)

/-- where a worker is with an item -/
inductive Phase (β : Type) where
  | queued
  | copying
  | creating
  | parts (rest : List (Nat × Nat)) (parts : List (List β))
  | completing (parts : List (List β))
  | copied
  | deleting (batch : List Str)

structure Task (β : Type) where
  source : ObjectInfo
  key : Str
  phase : Phase β

/-- where the main thread is -/
inductive Main where
  /-- asks for the page after a key -/
  | list (after : Option Str)
  /-- hands the items of a page to the workers; with no `next` it was the last page -/
  | items (rest : List ObjectInfo) (next : Option Str)
  | drain
  | flush (batch : List Str)
  /-- an exception was raised: waits for the items that run -/
  | stop
  | done (raised : Bool)

structure Transfer (β : Type) where
  objects : Objects β
  sent : List (Request β)
  main : Main
  tasks : List (Task β)
  batch : List Str
  tally : Tally
  /-- an item raised what `_guard` lets through -/
  failed : Bool

/-- the store's answer to a delete request -/
abbrev DeleteAnswer := Except Str (Option (List DeleteError))

inductive TransferEvent where
  | page (items : List ObjectInfo) (next : Option Str)
  | submit
  | pick (i : Nat)
  /-- the answer to a request of `copy_object` -/
  | answer (i : Nat) (a : Except Str Unit)
  /-- it raised what `_guard` lets through -/
  | broke (i : Nat)
  /-- a copied item goes to the deleter -/
  | add (i : Nat)
  | deleted (i : Nat) (a : DeleteAnswer)
  | finish
  | flushed (a : DeleteAnswer)
  /-- Ctrl-C, a listing that fails, or an item that raised -/
  | interrupt
  | stopped
  /-- a request that was sent takes effect, whatever its sender made of it -/
  | again (r : Nat)

def Request.apply (objects : Objects β) : Request β → Objects β
  | .copy source key =>
    match objects.content source with
    | none => objects
    | some content => objects.put key content
  | .complete key parts => objects.put key parts.flatten
  | .delete key => objects.filter fun o => decide (o.1 ≠ key)

/-- the first and the last byte of each part of a copy -/
def copyRanges (partSize size : Nat) : List (Nat × Nat) :=
  (List.range ((size + partSize - 1) / partSize)).map fun n =>
    (n * partSize, min (n * partSize + partSize) size - 1)

/-- the bytes of a range -/
def slice (content : List β) (range : Nat × Nat) : List β :=
  (content.drop range.1).take (range.2 + 1 - range.1)

/-- the keys that the store reads from a delete request -/
def named (batch : List Str) : List Str :=
  (((deleteXml batch).encode.bind Xml.read).map keyTexts).getD []

/-- a store answers a request it could read -/
def answerable (batch : List Str) (a : DeleteAnswer) : Bool :=
  match (deleteXml batch).encode, a with
  | some body, .ok _ => (Xml.read body).isSome
  | _, _ => true

/-- the keys a delete request removed, by its answer -/
def removed (batch : List Str) (a : DeleteAnswer) : List Str :=
  match deleteMany (fun _ => a) batch with
  | .ok failures => (named batch).filter fun k => decide (k ∉ failures.map Prod.fst)
  | .error _ => []

/-- the next thing of the main thread after it handed out an item -/
def Main.yield (rest : List ObjectInfo) (next : Option Str) : Main :=
  match rest, next with
  | [], none => .drain
  | [], some n => .list (some n)
  | _, _ => .items rest next

namespace Phase

/-- a worker has the item -/
def isRunning : Phase β → Bool
  | .queued => false
  | _ => true

/-- a request of `copy_object` is under way -/
def isCopying : Phase β → Bool
  | .copying => true
  | .creating => true
  | .parts _ _ => true
  | .completing _ => true
  | _ => false

end Phase

namespace Transfer

def start (objects : Objects β) (plan : Plan) : Transfer β where
  objects := objects
  sent := []
  main := match plan with
    | .object info _ => .items [info] none
    | .below _ _ => .list none
  tasks := []
  batch := []
  tally := ⟨[], 0⟩
  failed := false

def setPhase (t : Transfer β) (i : Nat) (task : Task β) (phase : Phase β) : Transfer β :=
  { t with tasks := t.tasks.set i { task with phase := phase } }

def endTask (t : Transfer β) (i : Nat) : Transfer β := { t with tasks := t.tasks.eraseIdx i }

/-- `_guard`: a failed item is reported and its source kept -/
def fail (t : Transfer β) (i : Nat) (task : Task β) (why : Str) : Transfer β :=
  { t.endTask i with
    tally := { t.tally with problems := t.tally.problems ++ [(task.source.key, why)] } }

/-- `Deleter._delete`, with the store's answer; `none` when it raises -/
def delete (t : Transfer β) (batch : List Str) (a : DeleteAnswer) : Option (Transfer β) :=
  match deleteBatch (fun _ => a) t.tally batch with
  | .ok tally =>
    some { t with
      tally := tally
      objects := t.objects.filter fun o => decide (o.1 ∉ removed batch a) }
  | .error _ => none

/-- `copy_object` begins -/
def beginCopy (l : Limits) (t : Transfer β) (i : Nat) (task : Task β) : Transfer β :=
  if task.source.size ≤ l.maxCopyObjectBytes then
    { t.setPhase i task .copying with sent := t.sent ++ [.copy task.source.key task.key] }
  else t.setPhase i task .creating

/-- the next request of a copy in parts -/
def nextPart (t : Transfer β) (i : Nat) (task : Task β) (rest : List (Nat × Nat))
    (parts : List (List β)) : Transfer β :=
  match rest with
  | [] =>
    { t.setPhase i task (.completing parts) with sent := t.sent ++ [.complete task.key parts] }
  | _ => t.setPhase i task (.parts rest parts)

/-- a request of `copy_object` succeeded -/
def progress (l : Limits) (t : Transfer β) (i : Nat) (task : Task β) : Option (Transfer β) :=
  match task.phase with
  | .copying => do
    let content ← t.objects.content task.source.key
    some { t.setPhase i task .copied with objects := t.objects.put task.key content }
  | .creating => some (t.nextPart i task (copyRanges l.copyPartSize task.source.size) [])
  | .parts (range :: rest) parts => do
    let content ← t.objects.content task.source.key
    some (t.nextPart i task rest (parts ++ [slice content range]))
  | .completing parts =>
    some { t.setPhase i task .copied with objects := t.objects.put task.key parts.flatten }
  | _ => none

variable (l : Limits) (move : Bool) (plan : Plan)

/-- `Deleter.add`: a full batch goes out at once -/
def addToBatch (t : Transfer β) (i : Nat) (task : Task β) : Transfer β :=
  let batch := t.batch ++ [task.source.key]
  if batch.length < l.deleteBatch then { t.endTask i with batch := batch }
  else
    { t.setPhase i task (.deleting batch) with
      batch := []
      sent := t.sent ++ (named batch).map .delete }

def step (t : Transfer β) : TransferEvent → Option (Transfer β)
  | .page items next =>
    match t.main with
    | .list _ => some { t with main := .yield items next }
    | _ => none
  | .submit =>
    match t.main with
    | .items (info :: rest) next =>
      if t.tasks.length < l.workers * 2 then
        some { t with
          main := .yield rest next
          tasks := t.tasks ++ [⟨info, plan.dest info.key, .queued⟩] }
      else none
    | _ => none
  | .pick i => do
    let task ← t.tasks[i]?
    match task.phase with
    | .queued =>
      if t.tasks.countP (fun task => task.phase.isRunning) < l.workers then
        some (t.beginCopy l i task)
      else none
    | _ => none
  | .answer i (.ok ()) => do
    let task ← t.tasks[i]?
    t.progress l i task
  | .answer i (.error why) => do
    let task ← t.tasks[i]?
    if task.phase.isCopying then some (t.fail i task why) else none
  | .broke i => do
    let task ← t.tasks[i]?
    if task.phase.isCopying then some { t.endTask i with failed := true } else none
  | .add i => do
    let task ← t.tasks[i]?
    match task.phase with
    | .copied => some (if move then t.addToBatch l i task else t.endTask i)
    | _ => none
  | .deleted i a => do
    let task ← t.tasks[i]?
    match task.phase with
    | .deleting batch =>
      if answerable batch a then
        match t.delete batch a with
        | some t' => some (t'.endTask i)
        | none => some { t.endTask i with failed := true }
      else none
    | _ => none
  | .finish =>
    match t.main with
    | .drain =>
      if t.tasks.isEmpty ∧ t.failed = false then
        if move ∧ t.batch ≠ [] then
          some { t with
            main := .flush t.batch
            batch := []
            sent := t.sent ++ (named t.batch).map .delete }
        else some { t with main := .done false }
      else none
    | _ => none
  | .flushed a =>
    match t.main with
    | .flush batch =>
      if answerable batch a then
        match t.delete batch a with
        | some t' => some { t' with main := .done false }
        | none => some { t with main := .stop }
      else none
    | _ => none
  | .interrupt =>
    match t.main with
    | .done _ => none
    | _ => some { t with
        main := .stop
        tasks := t.tasks.filter fun task => task.phase.isRunning }
  | .stopped =>
    match t.main with
    | .stop => if t.tasks.isEmpty then some { t with main := .done true } else none
    | _ => none
  | .again r => do
    let request ← t.sent[r]?
    some { t with objects := request.apply t.objects }

def machine : Base.Machine (Transfer β) TransferEvent := ⟨step l move plan⟩

end Transfer

end Freepod.Cli
