import Mathlib.Data.Prod.Lex
import Freepod.Base.GroupBy
import Freepod.Platform.Retention

/-!
# The retention stream

The write check and the prune compute retention from one stream of releases and builds, in one
query (`services/image_retention.py`): the check for one owner and its fresh builds only, the prune
for any owners and all builds.  What the database answers is the selected rows in any order that
the `order by` allows.

* `Ledger.stream`: the rows that `_STREAM` selects, `Answers` what it may answer.
* `Stream.retention`: the walk over the rows of one owner.
* `Stream.retentions` and `Stream.ownerRetention`: its two callers.
-/

namespace Freepod
open Base

/-- the tables the stream reads -/
structure Ledger where
  deployments : Table Deployment
  releases : Table DeploymentRelease
  builds : Table Build

/-- one row of the stream; the columns that are null for its kind are left out -/
inductive StreamRow
  | release (owner : UserId) (deploymentId : DeploymentId) (current number : Nat) (values : Json)
  | build (owner : UserId) (build : Build)

namespace StreamRow

def owner : StreamRow → UserId
  | release owner .. => owner
  | build owner _ => owner

/-- `_RELEASE, _BUILD = 0, 1` -/
def kind : StreamRow → Nat
  | release .. => 0
  | build .. => 1

def deploymentId : StreamRow → Option DeploymentId
  | release _ deploymentId .. => some deploymentId
  | build .. => none

/-- `order by owner, kind, deployment_id, current desc, number desc`; the nulls of builds are equal -/
def sortKey : StreamRow → UserId ×ₗ Nat ×ₗ DeploymentId ×ₗ Natᵒᵈ ×ₗ Natᵒᵈ
  | release owner deploymentId current number _ =>
    toLex (owner, toLex (0, toLex (deploymentId,
      toLex (OrderDual.toDual current, OrderDual.toDual number))))
  | build owner _ =>
    toLex (owner, toLex (1, toLex (0, toLex (OrderDual.toDual 0, OrderDual.toDual 0))))

end StreamRow

/-- `_FRESH_ONLY`; a comparison with null does not select -/
def Build.freshOnly (since : Time) (b : Build) : Bool :=
  b.status.isOpen || (decide (b.status = .succeeded) && b.finishedAt.any fun t => decide (since ≤ t))

namespace Ledger

/-- the releases of live deployments -/
def releaseRows (l : Ledger) (owners : List UserId) : List StreamRow :=
  (l.deployments.rows.filter fun d => d.deletedAt = none ∧ d.userId ∈ owners).flatMap fun d =>
    (l.releases.rows.filter fun r => r.deploymentId = d.id).map fun r =>
      .release d.userId d.id (d.current r.id) r.number r.valuesJson

/-- the builds, with `fresh_only` those since then -/
def buildRows (l : Ledger) (owners : List UserId) (freshOnly : Option Time) : List StreamRow :=
  (l.builds.rows.filter fun b => freshOnly.all fun since => b.freshOnly since).flatMap fun b =>
    (l.deployments.rows.filter fun d => d.id = b.deploymentId ∧ d.userId ∈ owners).map fun d =>
      .build d.userId b

/-- `_STREAM` -/
def stream (l : Ledger) (owners : List UserId) (freshOnly : Option Time) : List StreamRow :=
  l.releaseRows owners ++ l.buildRows owners freshOnly

end Ledger

/-- what the database may answer: the selected rows in order, ties in any order -/
structure Answers (l : Ledger) (owners : List UserId) (freshOnly : Option Time)
    (rows : List StreamRow) : Prop where
  perm : rows.Perm (l.stream owners freshOnly)
  sorted : rows.Pairwise fun a b => a.sortKey ≤ b.sortKey

/-- one row of a deployment's group: its images are current, or earlier ones -/
def Walk.release (owner : UserId) (past : Nat) (w : Walk) (current : Nat) (values : Json) : Walk :=
  if current ≠ 0 then
    (ownerImages owner values).foldl
      (Walk.addCurrent (if current = 2 then .applied else .desired)) w
  else if past ≤ w.earlier.length then w
  else (sortedImages owner values).foldl (Walk.addEarlier past) w

namespace Stream

/-- one row of a group of releases -/
def releaseRow (owner : UserId) (past : Nat) (w : Walk) : StreamRow → Walk
  | .release _ _ current _ values => w.release owner past current values
  | .build .. => w

/-- one row of the group of builds -/
def buildRow (since : Time) (r : Retention) : StreamRow → Retention
  | .release .. => r
  | .build _ b => retentionBuild since r b

/-- one group, by its kind and deployment -/
def group (owner : UserId) (past : Nat) (since : Time) (r : Retention)
    (g : (Nat × Option DeploymentId) × List StreamRow) : Retention :=
  if g.1.1 = 1 then g.2.foldl (buildRow since) r
  else
    let w := g.2.foldl (releaseRow owner past) ⟨r.images, [], []⟩
    { r with images := w.earlier.foldl (fun images i => label images i .earlier) w.images }

/-- `_retention` -/
def retention (owner : UserId) (rows : List StreamRow) (past : Nat) (since : Time) : Retention :=
  (groupBy (fun r => (r.kind, r.deploymentId)) rows).foldl (group owner past since) .empty

/-- `_retentions`, over the answer of its query -/
def allRetentions (cfg : Settings) (owners : List UserId) (rows : List StreamRow) (now : Time) :
    List (UserId × Retention) :=
  if owners = [] then []
  else
    (groupBy StreamRow.owner rows).map fun g =>
      (g.1, retention g.1 g.2 cfg.registryRetainedPastImages (graceStart cfg now))

/-- `owner_retention`: the first retention of the owner's fresh builds, the empty one when there
is none -/
def ownerRetention (cfg : Settings) (owner : UserId) (rows : List StreamRow) (now : Time) :
    Retention :=
  match allRetentions cfg [owner] rows now with
  | (_, r) :: _ => r
  | [] => .empty

/-- `retentions`: every named owner's, with all builds -/
def retentions (cfg : Settings) (owners : List UserId) (rows : List StreamRow) (now : Time) :
    List (UserId × Retention) := allRetentions cfg owners rows now

end Stream

end Freepod
