import Mathlib.Data.List.Infix
import Mathlib.Tactic.TypeStar

/-!
# A build's log

The stored log mirrors the output of the build's Job (`build_worker.py`): each pass reads the output
in full and replaces what is stored unless the read is shorter.

* `truncateLog`, `mergeLog`: what is stored of a read.
* `evictionLogLine`: the line the platform appends for an evicted build.
* `getBuildLog`: a client's read from an offset (`services/builds.py`).
-/

namespace Freepod

abbrev Bytes := List UInt8

/-- `str.encode()` -/
def encode (s : String) : Bytes := s.toUTF8.data.toList

/-- `TRUNCATION_MARKER % cap` -/
def truncationMarker (cap : Nat) : Bytes :=
  encode ("\n[log truncated: build produced more than " ++ toString cap ++ " bytes]\n")

/-- `truncate_log` -/
def truncateLog (data : Bytes) (cap : Nat) : Bytes :=
  if data.length ≤ cap then data
  else
    let marker := truncationMarker cap
    let keep := cap - marker.length
    data.take keep ++ marker.take (cap - keep)

/-- `merge_log` -/
def mergeLog (stored : Bytes) (fresh : Option Bytes) (cap : Nat) : Bytes :=
  match fresh with
  | none => stored
  | some [] => stored
  | some fresh =>
    let candidate := truncateLog fresh cap
    if candidate.length < stored.length then stored else candidate

/-! ## The platform's own line -/

def gateFailureLogLine : Bytes := encode
  ("freepod: the build could not start because its network isolation was not" ++
    " ready in time. This is a platform problem, not your code; start the build again.\n")

/-- what follows a text at the front of a string -/
def after (text : String) (s : List Char) : Option (List Char) :=
  if text.toList.isPrefixOf s then some (s.drop text.length) else none

/-- `re.search`: the first position at which a pattern matches -/
def search {α : Type} (matchAt : List Char → Option α) : List Char → Option α
  | [] => matchAt []
  | c :: s =>
    match matchAt (c :: s) with
    | some a => some a
    | none => search matchAt s

/-- a nonempty run of characters outside a set, and what follows it -/
def runOf (outside : List Char) (s : List Char) : Option (String × List Char) :=
  let run := s.takeWhile fun c => !outside.contains c
  if run = [] then none else some (String.ofList run, s.drop run.length)

/-- `_EMPTYDIR_EVICTION`: the volume and its limit -/
def emptydirEviction (s : List Char) : Option (String × String) := do
  let s ← after "Usage of EmptyDir volume \"" s
  let (volume, s) ← runOf ['"'] s
  let s ← after "\" exceeds the limit \"" s
  let (limit, s) ← runOf ['"'] s
  let _ ← after "\"" s
  pure (volume, limit)

/-- `_STORAGE_EVICTION`: the limit -/
def storageEviction (s : List Char) : Option String := do
  let s ← (after "exceeded its local ephemeral storage limit \"" s).or
    (after "exceeds the total limit of containers " s)
  let (limit, _) ← runOf ['"', '.', ' '] s
  pure limit

/-- `_NODE_EVICTION` -/
def nodeEviction (s : List Char) : Option Unit := do
  let s ← after "The node " s
  let _ ← (after "was low on resource" s).or (after "had condition" s)
  pure ()

def buildkitVolume : String := "buildkit"
def workVolume : String := "work"

/-- `eviction_log_line` -/
def evictionLogLine (message : String) : Bytes :=
  match search emptydirEviction message.toList with
  | some (volume, limit) =>
    let (what, remedy) :=
      if volume = buildkitVolume then
        ("wrote more than " ++ limit ++ " of image layers and build cache",
          "Install fewer or smaller dependencies")
      else if volume = workVolume then
        ("grew its working copy of the project past " ++ limit,
          "Make the project and what its build generates smaller")
      else ("used more than " ++ limit ++ " of build storage", "Make the build smaller")
    encode ("freepod: the build was stopped because it " ++ what ++ ", the most a build may use." ++
      " " ++ remedy ++ " and start the build again.\n")
  | none =>
    match search storageEviction message.toList with
    | some limit =>
      encode ("freepod: the build was stopped because it used more than " ++ limit ++ " of" ++
        " disk space, the most a build may use. Make the build smaller and start it again.\n")
    | none =>
      match search nodeEviction message.toList with
      | some () => encode
          ("freepod: the build was stopped because the machine running it ran short of" ++
            " resources. This is a platform problem, not your code; start the build again.\n")
      | none => encode
          ("freepod: the build was stopped by the platform before it finished." ++
            " Start the build again.\n")

def newline : UInt8 := 10

/-- what ends the last line of a log -/
def separator (stored : Bytes) : Bytes :=
  if stored ≠ [] ∧ stored.getLast? ≠ some newline then [newline] else []

/-- `_append_log_line` -/
def appendLogLine (stored line : Bytes) : Bytes := stored ++ separator stored ++ line

/-! ## A client's read -/

structure LogSlice where
  data : Bytes
  start : Nat
  isPartial : Bool

/-- `get_build_log`, of the bytes that are stored -/
def getBuildLog (data : Bytes) (start : Option Int) (stop : Option Int) : LogSlice :=
  match start with
  | none => ⟨data, 0, false⟩
  | some start =>
    let offset := (min (max start 0) data.length).toNat
    match stop with
    | none => ⟨data.drop offset, offset, true⟩
    | some stop =>
      -- a negative bound of a slice counts from the end
      let bound := if stop + 1 < 0 then data.length + (stop + 1) else stop + 1
      ⟨(data.take bound.toNat).drop offset, offset, true⟩

/-! ## What is stored of a read -/

section
variable {stored data : Bytes} {cap : Nat}

/-- **the marker counts against the cap** -/
theorem length_truncateLog_le (data : Bytes) (cap : Nat) : (truncateLog data cap).length ≤ cap := by
  unfold truncateLog
  split
  · assumption
  · simp only [List.length_append, List.length_take]
    omega

/-- what is cut fills the cap -/
theorem length_truncateLog_of_lt (h : cap < data.length) : (truncateLog data cap).length = cap := by
  unfold truncateLog
  rw [if_neg (by omega)]
  simp only [List.length_append, List.length_take]
  omega

theorem truncateLog_of_le (h : data.length ≤ cap) : truncateLog data cap = data := if_pos h

theorem length_mergeLog_le (h : stored.length ≤ cap) (fresh : Option Bytes) :
    (mergeLog stored fresh cap).length ≤ cap := by
  unfold mergeLog
  split
  · exact h
  · exact h
  · rename_i fresh _
    dsimp only
    split
    · exact h
    · exact length_truncateLog_le fresh cap

/-- a read that goes on where the stored log ends: within the cap it is shorter or begins with what
is stored; beyond the cap what is stored is part of what is kept, or all of it and then a part of the
marker -/
def Continues (stored : Bytes) (fresh : Option Bytes) (cap : Nat) : Prop :=
  ∀ data ∈ fresh, data ≠ [] →
    if data.length ≤ cap then data.length < stored.length ∨ stored <+: data
    else
      let kept := data.take (cap - (truncationMarker cap).length)
      stored <+: kept ∨ ∃ n, stored = kept ++ (truncationMarker cap).take n

/-- a prefix of two parts is a prefix of the first, or all of it and a prefix of the second -/
theorem prefix_append_iff {α : Type*} {l a b : List α} :
    l <+: a ++ b ↔ l <+: a ∨ ∃ n, l = a ++ b.take n := by
  constructor
  · intro h
    by_cases hle : l.length ≤ a.length
    · exact .inl (List.prefix_of_prefix_length_le h (List.prefix_append a b) hle)
    · refine .inr ⟨l.length - a.length, ?_⟩
      rw [List.prefix_iff_eq_take.mp h, List.take_append, List.take_of_length_le (by omega)]
      simp
  · rintro (h | ⟨n, rfl⟩)
    · exact h.trans (List.prefix_append a b)
    · exact (List.prefix_append_right_inj a).mpr (List.take_prefix n b)

/-- **a merge extends what is stored exactly when the read continues it** -/
theorem prefix_mergeLog_iff (h : stored.length ≤ cap) (fresh : Option Bytes) :
    stored <+: mergeLog stored fresh cap ↔ Continues stored fresh cap := by
  cases fresh with
  | none => exact ⟨fun _ _ hd => (nomatch hd), fun _ => List.prefix_refl _⟩
  | some data =>
    by_cases hd : data = []
    · subst hd
      refine ⟨fun _ data hd hne => ?_, fun _ => List.prefix_refl _⟩
      exact absurd (Option.some.inj hd).symm hne
    · have hmerge : mergeLog stored (some data) cap =
          if (truncateLog data cap).length < stored.length then stored else truncateLog data cap := by
        cases data with
        | nil => exact absurd rfl hd
        | cons x data => rfl
      have hcont : Continues stored (some data) cap ↔
          if data.length ≤ cap then data.length < stored.length ∨ stored <+: data
          else
            stored <+: data.take (cap - (truncationMarker cap).length) ∨
              ∃ n, stored = data.take (cap - (truncationMarker cap).length) ++
                (truncationMarker cap).take n := by
        constructor
        · exact fun hc => hc data rfl hd
        · rintro hc _ ⟨⟩ -
          exact hc
      rw [hmerge, hcont]
      by_cases hle : data.length ≤ cap
      · rw [truncateLog_of_le hle, if_pos hle]
        by_cases hlt : data.length < stored.length
        · rw [if_pos hlt]
          exact ⟨fun _ => .inl hlt, fun _ => List.prefix_refl _⟩
        · rw [if_neg hlt]
          exact ⟨.inr, fun h => h.resolve_left hlt⟩
      · have hlen : (truncateLog data cap).length = cap := length_truncateLog_of_lt (by omega)
        rw [if_neg hle, hlen, if_neg (by omega)]
        unfold truncateLog
        rw [if_neg hle]
        simp only
        rw [prefix_append_iff]
        refine or_congr_right ⟨?_, ?_⟩
        · rintro ⟨n, hn⟩
          refine ⟨min n (cap - (cap - (truncationMarker cap).length)), ?_⟩
          rw [hn, List.take_take]
        · rintro ⟨n, hn⟩
          -- no more of the marker is stored than the cap leaves room for
          refine ⟨n, ?_⟩
          have hroom : ((truncationMarker cap).take n).length ≤
              cap - (cap - (truncationMarker cap).length) := by
            have hl := congrArg List.length hn
            simp only [List.length_append, List.length_take] at hl ⊢
            omega
          rw [hn, List.take_take]
          congr 1
          rw [List.length_take] at hroom
          rcases Nat.le_total n (truncationMarker cap).length with hm | hm
          · rw [Nat.min_eq_left (by omega)]
          · rw [Nat.min_eq_right hm] at hroom
            rw [List.take_of_length_le (by omega), List.take_of_length_le (by omega)]

theorem prefix_appendLogLine (stored line : Bytes) : stored <+: appendLogLine stored line := by
  unfold appendLogLine
  rw [List.append_assoc]
  exact List.prefix_append _ _

/-- **a read from the end of a prefix completes it** -/
theorem getBuildLog_from {seen : Bytes} (h : seen <+: data) :
    seen ++ (getBuildLog data (some seen.length) none).data = data := by
  have hle := h.length_le
  have hoff : (min (max (seen.length : Int) 0) data.length).toNat = seen.length := by omega
  simp only [getBuildLog, hoff]
  exact List.prefix_iff_eq_append.mp h

end

end Freepod
