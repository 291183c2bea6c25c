import Freepod.Properties.Integrity

/-!
# Ended Keycloak sessions

The verifier holds a copy of the Keycloak sessions that have ended, and identifies nobody by a
session cookie that names one of them.  It forgets an end once it is a cookie's lifetime old.

* `outlives`: a cookie sealed no later than the end of its session no longer opens by then, so
  `ended_never_admits`: the verifier never identifies anybody by it again.
* A code that was issued before the end can still be spent after it: `ended_admits`.
-/

namespace Freepod.Auth
open Base

variable {cfg : Config} {s t : Store} {tr : Trace} {e : AuthEntry} {p q : AuthPool}

/-! ## What the verifier was told -/

/-- a read of the ended sessions found that `ksid` ended at `at` -/
def Returned (tr : Trace) (ksid : String) (endedAt : Time) : Prop :=
  ∃ e ∈ tr, ∃ since rows, e.call = ⟨.endedSessions since, .ok rows⟩ ∧
    (⟨ksid, endedAt⟩ : EndedSession) ∈ rows

/-- a refresh has added `ksid` to the copy held -/
def Merged (tr : Trace) (ksid : String) : Prop :=
  ∃ e ∈ tr, ∃ rows x, e.call = ⟨.endedMerge rows, x⟩ ∧ ∃ r ∈ rows, r.id = ksid

theorem Returned.cons {ksid : String} {a : Time} (h : Returned tr ksid a) (e : AuthEntry) :
    Returned (e :: tr) ksid a := by
  obtain ⟨e', he', h⟩ := h
  exact ⟨e', List.mem_cons_of_mem e he', h⟩

theorem Merged.mono {tr' : Trace} {ksid : String} (h : Merged tr ksid) (htr : tr <:+ tr') :
    Merged tr' ksid := by
  obtain ⟨e, he, h⟩ := h
  exact ⟨e, htr.subset he, h⟩

/-- no cookie is sealed for a session in a second after the one it ended in -/
def SealsBeforeEnd (p : AuthPool) (ev : AuthEvent) : Prop :=
  ∀ i handle req v ttl k, ev = .run i (.text handle) →
    p.threads[i]? = some ⟨req, .call (.seal (.session v) ttl) k⟩ →
    (∀ r ∈ p.store.ended, r.id = v.keycloakSID → unix p.store.now ≤ unix r.endedAt) ∧
    ∀ a, Returned p.trace v.keycloakSID a → unix p.store.now ≤ unix a

/-! ## The copy held -/

theorem unix_mono {a b : Time} (h : a ≤ b) : unix a ≤ unix b := Nat.div_le_div_right h

/-- whole seconds pass through -/
theorem unix_add_seconds (a n : Nat) : unix (a + n * second) = unix a + n := by
  unfold unix second
  omega

/-- a cookie sealed no later than its session ended opens no longer than the end is remembered -/
theorem outlives {a b : Time} (h : unix a ≤ unix b) :
    unix (a + sessionTTL) ≤ unix (b + endedRetention) := by
  have hs : sessionTTL = 604800 * second := rfl
  have he : endedRetention = 604800 * second := rfl
  rw [hs, he, unix_add_seconds, unix_add_seconds]
  omega

/-- the copy after one more row -/
theorem add_mem {c : EndedCache} {r : EndedSession} {x : String × Time}
    (h : x ∈ (c.add r).ids) : x = (r.id, r.endedAt) ∨ x ∈ c.ids := by
  rcases List.mem_cons.mp h with h | h
  · exact .inl h
  · exact .inr (List.mem_of_mem_filter h)

/-- a name stays in the copy as rows are added -/
theorem add_keeps (c : EndedCache) (r : EndedSession) {ksid : String}
    (h : r.id = ksid ∨ ∃ a, (ksid, a) ∈ c.ids) : ∃ a, (ksid, a) ∈ (c.add r).ids := by
  by_cases hr : r.id = ksid
  · subst hr
    exact ⟨_, List.mem_cons_self⟩
  · obtain h | ⟨a, ha⟩ := h
    · exact absurd h hr
    · refine ⟨a, List.mem_cons_of_mem _ (List.mem_filter.mpr ⟨ha, ?_⟩)⟩
      simpa using fun h => hr h.symm

theorem mem_of_foldl {rows : List EndedSession} {c : EndedCache} {x : String × Time}
    (h : x ∈ (rows.foldl EndedCache.add c).ids) :
    x ∈ c.ids ∨ (⟨x.1, x.2⟩ : EndedSession) ∈ rows := by
  induction rows generalizing c with
  | nil => exact .inl h
  | cons r rows ih =>
    rcases ih h with h | h
    · rcases add_mem h with rfl | h
      · exact .inr List.mem_cons_self
      · exact .inl h
    · exact .inr (List.mem_cons_of_mem _ h)

theorem foldl_keeps {rows : List EndedSession} {c : EndedCache} {ksid : String}
    (h : (∃ r ∈ rows, r.id = ksid) ∨ ∃ a, (ksid, a) ∈ c.ids) :
    ∃ a, (ksid, a) ∈ (rows.foldl EndedCache.add c).ids := by
  induction rows generalizing c with
  | nil =>
    obtain ⟨r, hr, -⟩ | h := h
    · cases hr
    · exact h
  | cons r rows ih =>
    obtain ⟨r', hr', hid⟩ | h := h
    · rcases List.mem_cons.mp hr' with rfl | hr'
      · exact ih (.inr (add_keeps c r' (.inl hid)))
      · exact ih (.inl ⟨r', hr', hid⟩)
    · exact ih (.inr (add_keeps c r (.inr h)))

/-- a refresh forgets what is past the retention only -/
theorem mem_merge {rows : List EndedSession} {c : EndedCache} {now : Time} {x : String × Time} :
    x ∈ (c.merge rows now).ids ↔
      x ∈ (rows.foldl EndedCache.add c).ids ∧ now ≤ x.2 + endedRetention := by
  unfold EndedCache.merge
  simp only [List.mem_filter, Bool.not_eq_true', decide_eq_false_iff_not, not_lt]
  exact and_congr_right fun _ => Nat.sub_le_iff_le_add

/-! ## What a run keeps -/

/-- a cookie that `v` was sealed into at `sealedAt` opens no longer than its session's ends count -/
def Outlived (s : Store) (tr : Trace) (v : Session) (sealedAt : Time) : Prop :=
  (∀ r ∈ s.ended, r.id = v.keycloakSID →
    unix (sealedAt + sessionTTL) ≤ unix (r.endedAt + endedRetention)) ∧
  ∀ a, Returned tr v.keycloakSID a → unix (sealedAt + sessionTTL) ≤ unix (a + endedRetention)

/-- the copy held, and the cookies around, against the trace -/
structure Lasting (s : Store) (tr : Trace) : Prop where
  cookies : ∀ e ∈ tr, ∀ v ttl handle, e.call = ⟨.seal (.session v) ttl, .ok handle⟩ →
    Outlived s tr v e.time
  held : ∀ x ∈ s.cache.ids, Returned tr x.1 x.2
  remembered : ∀ ksid, Merged tr ksid → (∃ a, (ksid, a) ∈ s.cache.ids) ∨
    ∃ a, Returned tr ksid a ∧ a + endedRetention < s.now

/-- what the next read finds is what the store holds -/
theorem returned_of_cons {ksid : String} {a : Time}
    (hread : ∀ since rows, e.call = ⟨.endedSessions since, .ok rows⟩ → rows ⊆ s.ended)
    (h : Returned (e :: tr) ksid a) : Returned tr ksid a ∨ ⟨ksid, a⟩ ∈ s.ended := by
  obtain ⟨e', he', since, rows, hc, hmem⟩ := h
  rcases List.mem_cons.mp he' with rfl | he'
  · exact .inr (hread since rows hc hmem)
  · exact .inl ⟨e', he', since, rows, hc, hmem⟩

theorem Outlived.push {v : Session} {sealedAt : Time} (h : Outlived s tr v sealedAt)
    (hread : ∀ since rows, e.call = ⟨.endedSessions since, .ok rows⟩ → rows ⊆ s.ended) :
    Outlived s (e :: tr) v sealedAt := by
  refine ⟨h.1, fun a ha => ?_⟩
  rcases returned_of_cons hread ha with ha | ha
  · exact h.2 a ha
  · exact h.1 _ ha rfl

theorem merged_of_cons {ksid : String} (hm : ∀ rows x, e.call ≠ ⟨.endedMerge rows, x⟩)
    (h : Merged (e :: tr) ksid) : Merged tr ksid := by
  obtain ⟨e', he', rows, x, hc, hr⟩ := h
  rcases List.mem_cons.mp he' with rfl | he'
  · exact absurd hc (hm rows x)
  · exact ⟨e', he', rows, x, hc, hr⟩

section
variable (hl : Lasting s tr)
include hl

theorem Lasting.change {w : World} (h : change s w = some t) : Lasting t tr := by
  cases w with
  | pass d =>
    cases h
    refine ⟨hl.cookies, hl.held, fun ksid hm => ?_⟩
    rcases hl.remembered ksid hm with h | ⟨a, ha, hlt⟩
    · exact .inl h
    · exact .inr ⟨a, ha, Nat.lt_of_lt_of_le hlt (Nat.le_add_right _ _)⟩
  | addEntry id d email =>
    have h : s.addEntry id d email = some t := h
    unfold Store.addEntry at h
    split at h
    · cases h
    · cases h
      exact ⟨hl.cookies, hl.held, hl.remembered⟩
  | platform _ =>
    cases h
    exact ⟨hl.cookies, hl.held, hl.remembered⟩
  | dropEntry _ =>
    cases h
    exact ⟨hl.cookies, hl.held, hl.remembered⟩
  | dropDeployment _ =>
    cases h
    exact ⟨hl.cookies, hl.held, hl.remembered⟩
  | rotate _ =>
    cases h
    exact ⟨hl.cookies, hl.held, hl.remembered⟩

/-- ends are recorded as they happen, and no cookie is sealed ahead of time -/
theorem Lasting.ends (ht : ∀ e ∈ tr, e.time ≤ s.now) (ksid : String) :
    Lasting (s.endSession ksid).2 tr := by
  refine ⟨fun e he v ttl handle hc => ⟨fun r hmem hid => ?_, ?_⟩, hl.held, hl.remembered⟩
  · have hmem : r ∈ if s.ended.any fun e => e.id == ksid then s.ended
      else s.ended ++ [⟨ksid, s.now⟩] := hmem
    have hold := (hl.cookies e he v ttl handle hc).1 r
    split at hmem
    · exact hold hmem hid
    · rcases List.mem_append.mp hmem with hmem | hmem
      · exact hold hmem hid
      · obtain rfl := List.mem_singleton.mp hmem
        exact outlives (unix_mono (ht e he))
  · exact (hl.cookies e he v ttl handle hc).2

/-- a purge takes ends from the store only -/
theorem Lasting.purged (table : AuthTable) : Lasting (s.purge table).2 tr := by
  have hsub : (s.purge table).2.ended ⊆ s.ended := (purge_ended s table).2.2.2.2.2.2
  have hcache : (s.purge table).2.cache = s.cache := by cases table <;> rfl
  have hnow : (s.purge table).2.now = s.now := (purge_ended s table).1
  refine ⟨fun e he v ttl handle hc => ?_, hcache ▸ hl.held, hcache ▸ hnow ▸ hl.remembered⟩
  have hold := hl.cookies e he v ttl handle hc
  exact ⟨fun r hmem => hold.1 r (hsub hmem), hold.2⟩

/-- a refresh adds what a read returned, and forgets what is past the retention -/
theorem Lasting.merged {rows : List EndedSession}
    (hrows : ∀ r ∈ rows, Returned tr r.id r.endedAt) :
    (∀ x ∈ (s.cache.merge rows s.now).ids, Returned tr x.1 x.2) ∧
      ∀ ksid, (∃ r ∈ rows, r.id = ksid) ∨ Merged tr ksid →
        (∃ a, (ksid, a) ∈ (s.cache.merge rows s.now).ids) ∨
          ∃ a, Returned tr ksid a ∧ a + endedRetention < s.now := by
  have hfold : ∀ x ∈ (rows.foldl EndedCache.add s.cache).ids, Returned tr x.1 x.2 := by
    intro x hx
    rcases mem_of_foldl hx with h | h
    · exact hl.held x h
    · exact hrows _ h
  refine ⟨fun x hx => hfold x (mem_merge.mp hx).1, fun ksid h => ?_⟩
  -- the name is in the copy before the refresh forgets, or was forgotten before
  have hin : (∃ a, (ksid, a) ∈ (rows.foldl EndedCache.add s.cache).ids) ∨
      ∃ a, Returned tr ksid a ∧ a + endedRetention < s.now := by
    rcases h with h | h
    · exact .inl (foldl_keeps (.inl h))
    · rcases hl.remembered ksid h with h | h
      · exact .inl (foldl_keeps (.inr h))
      · exact .inr h
  rcases hin with ⟨a, ha⟩ | h
  · by_cases hkept : s.now ≤ a + endedRetention
    · exact .inl ⟨a, mem_merge.mpr ⟨ha, hkept⟩⟩
    · exact .inr ⟨a, hfold _ ha, Nat.lt_of_not_le hkept⟩
  · exact .inr h

/-- one more call that changes neither the ends nor the copy held -/
theorem Lasting.push
    (hseal : ∀ v ttl handle, e.call = ⟨.seal (.session v) ttl, .ok handle⟩ → Outlived s tr v e.time)
    (hread : ∀ since rows, e.call = ⟨.endedSessions since, .ok rows⟩ → rows ⊆ s.ended)
    (hm : ∀ rows x, e.call ≠ ⟨.endedMerge rows, x⟩) : Lasting s (e :: tr) := by
  refine ⟨fun e' he' v ttl handle hc => ?_, fun x hx => (hl.held x hx).cons e, fun ksid h => ?_⟩
  · rcases List.mem_cons.mp he' with rfl | he'
    · exact (hseal v ttl handle hc).push hread
    · exact (hl.cookies e' he' v ttl handle hc).push hread
  · rcases hl.remembered ksid (merged_of_cons hm h) with h | ⟨a, ha, hlt⟩
    · exact .inl h
    · exact .inr ⟨a, ha.cons e, hlt⟩

/-- **one call keeps it** -/
theorem Lasting.call {o : Op} {x : Ret o} (hr : Recorded s tr) (hd : Does cfg s o x t)
    (hcall : e.call = ⟨o, x⟩) (ht : e.time = s.now)
    (hseal : ∀ v ttl handle, e.call = ⟨.seal (.session v) ttl, .ok handle⟩ → Outlived s tr v e.time)
    (hread : ∀ since rows, e.call = ⟨.endedSessions since, .ok rows⟩ → rows ⊆ s.ended)
    (hrows : ∀ rows, o = .endedMerge rows → ∀ r ∈ rows, Returned tr r.id r.endedAt) :
    Lasting t (e :: tr) := by
  have hpush : (∀ rows, o ≠ .endedMerge rows) → Lasting s (e :: tr) := by
    intro ho
    refine hl.push hseal hread fun rows y hc => ?_
    rw [hcall] at hc
    cases hc
    exact ho rows rfl
  cases hd with
  | nothing h =>
    refine hpush fun rows ho => ?_
    subst ho
    exact h
  | merges rows =>
    obtain ⟨hheld, hrem⟩ := hl.merged (hrows rows rfl)
    refine ⟨fun e' he' v ttl handle hc => ?_, fun x hx => (hheld x hx).cons e, fun ksid h => ?_⟩
    · rcases List.mem_cons.mp he' with rfl | he'
      · rw [hcall] at hc
        cases hc
      · exact (hl.cookies e' he' v ttl handle hc).push hread
    · have hor : (∃ r ∈ rows, r.id = ksid) ∨ Merged tr ksid := by
        obtain ⟨e', he', rows', y, hc, hr'⟩ := h
        rcases List.mem_cons.mp he' with rfl | he'
        · rw [hcall] at hc
          cases hc
          exact .inl hr'
        · exact .inr ⟨e', he', rows', y, hc, hr'⟩
      rcases hrem ksid hor with h | ⟨a, ha, hlt⟩
      · exact .inl h
      · exact .inr ⟨a, ha.cons e, hlt⟩
  | endsSession ksid x hx =>
    refine (hpush fun rows h => nomatch h).ends (fun e' he' => ?_) ksid
    rcases List.mem_cons.mp he' with rfl | he'
    · exact ht.le
    · exact hr.times e' he'
  | purges table x => exact (hpush fun rows h => nomatch h).purged table
  | binds b sub name x h =>
    rw [bindEntry_frame]
    have h := hpush fun rows h => nomatch h
    exact ⟨h.cookies, h.held, h.remembered⟩
  | _ =>
    have h := hpush fun rows h => nomatch h
    exact ⟨h.cookies, h.held, h.remembered⟩

end

/-! ## What the verifier answers -/

/-- a session that was merged and is not known to have ended, ended a cookie's lifetime ago -/
def Consulted (older : Trace) (e : AuthEntry) : Prop :=
  ∀ ksid, e.call = ⟨.endedStatus ksid, (false, true)⟩ → ksid ≠ "" → Merged older ksid →
    ∃ a, Returned older ksid a ∧ a + endedRetention < e.time

theorem forgotten_of_status (hl : Lasting s tr) {ksid : String}
    (h : s.cache.status ksid = (false, true)) (hne : ksid ≠ "") (hm : Merged tr ksid) :
    ∃ a, Returned tr ksid a ∧ a + endedRetention < s.now := by
  rcases hl.remembered ksid hm with ⟨a, ha⟩ | hold
  · -- it would have been found in the copy held
    have hany : (s.cache.ids.any fun p => p.1 == ksid) = true :=
      List.any_eq_true.mpr ⟨_, ha, by simp⟩
    unfold EndedCache.status at h
    split at h
    · simp [hany, hne] at h
    · cases h
  · exact hold

/-- **the copy held and the cookies in every run** -/
theorem lasting {p0 : AuthPool} (h0 : Started p0)
    (h : (service cfg).machine.Reach SealsBeforeEnd p0 p) :
    Lasting p.store p.trace ∧ ∀ e older, e :: older <:+ p.trace → Consulted older e := by
  obtain ⟨now, platform, entries, rfl⟩ := id h0
  have hk := reach_known h0 h
  suffices hall : Grounded (service cfg) p ∧ Lasting p.store p.trace ∧
      ∀ e older, e :: older <:+ p.trace → Consulted older e from hall.2
  refine Machine.Reach.history (meets_handler cfg) ?_ ?_ ?_ hk
  · refine ⟨fun e he => (nomatch he), fun x hx => (nomatch hx), fun ksid hm => ?_⟩
    obtain ⟨e, he, -⟩ := hm
    cases he
  · intro p w s _ hl hc
    exact hl.change hc
  · rintro p i c req o k x s ⟨hok, hkn⟩ hg hl _ hth hdeed hp
    refine ⟨hl.call hkn.recorded (does_of_perform hp) rfl rfl ?_ ?_ ?_, ?_⟩
    · intro v ttl handle hc
      cases hc
      obtain ⟨h1, h2⟩ : _ ∧ _ := by
        cases c with
        | text h => exact hok i h req v ttl k rfl hth
        | _ => cases hp
      refine ⟨fun r hr hid => outlives (h1 r hr hid), fun a ha => outlives (h2 a ha)⟩
    · intro since rows hc
      cases hc
      have hp : perform cfg p.store (.endedSessions since) c = some (.ok rows, s) := hp
      rw [told_of_perform hp rows rfl]
      exact fun r hr => List.mem_of_mem_filter hr
    · rintro rows rfl r hr
      obtain ⟨since, hmade⟩ := hdeed
      obtain ⟨e, older, hs, -, hc⟩ := entry_of_mem_logOf hmade
      exact ⟨e, mem_of_cons_suffix hs, since, rows, hc, hr⟩
    · intro ksid hc hne hm
      cases hc
      have hp : perform cfg p.store (.endedStatus ksid) c = some ((false, true), s) := hp
      have htold : (false, true) = p.store.cache.status ksid := told_of_perform hp
      exact forgotten_of_status hl htold.symm hne hm

/-! ## Later requests -/

/-- the `i`th request was let through as a session of `ksid`: one of its cookies still opened as
that session when the verifier found it not ended -/
def IdentifiedBy (p : AuthPool) (i : Nat) (ksid : String) : Prop :=
  ∃ v prog r cookies s raw e, p.threads[i]? = some ⟨.verify v, prog⟩ ∧ prog.answer? = some r ∧
    r.body = .through cookies (some s) ∧ s.keycloakSID = ksid ∧
    raw ∈ cookieValues v.cookies sessionCookie ∧ e ∈ p.trace ∧ e.who = i ∧
    e.call = ⟨.endedStatus ksid, (false, true)⟩ ∧ Unsealed p.trace e.time raw (.session s)

/-- what a later request did came after what the trace held then -/
theorem suffix_of_later {p1 : AuthPool} (hg : Grounded (service cfg) p1) (hp : p1.trace <:+ p.trace)
    {e : AuthEntry} {older : Trace} (he : e :: older <:+ p.trace)
    (hi : p1.threads.length ≤ e.who) : p1.trace <:+ older := by
  rcases le_total p1.trace.length older.length with hle | hle
  · exact List.suffix_of_suffix_length_le hp ((List.suffix_cons _ _).trans he) hle
  · by_cases heq : older.length = p1.trace.length
    · have hsuf := List.suffix_of_suffix_length_le ((List.suffix_cons _ _).trans he) hp hle
      rw [hsuf.eq_of_length heq]
    · have hsuf := List.suffix_of_suffix_length_le he hp (by rw [List.length_cons]; omega)
      obtain ⟨t, ht, -⟩ := hg.entry e (mem_of_cons_suffix hsuf)
      have hlt := (List.getElem?_eq_some_iff.mp ht).1
      omega

/-- the names of ended sessions are not empty -/
theorem Merged.ne_empty (hg : Grounded (service cfg) p)
    (hf : ∀ e older, e :: older <:+ p.trace → Found cfg older e) {ksid : String}
    (h : Merged p.trace ksid) : ksid ≠ "" := by
  obtain ⟨e, he, rows, x, hc, r, hr, rfl⟩ := h
  obtain ⟨older, hs⟩ := exists_suffix_of_mem he
  have hd := called hg hs
  rw [hc] at hd
  obtain ⟨since, hmade⟩ := hd
  obtain ⟨e1, o1, hs1, -, hc1⟩ := entry_of_mem_logOf hmade
  have hs1p := hs1.trans ((List.suffix_cons _ _).trans hs)
  have hfe := hf e1 o1 hs1p
  rw [Found, hc1] at hfe
  obtain ⟨e2, he2, y, hc2, -⟩ := hfe rows rfl r hr
  obtain ⟨o2, hs2⟩ := exists_suffix_of_mem he2
  have hd2 := called hg (hs2.trans ((List.suffix_cons _ _).trans hs1p))
  rw [hc2] at hd2
  exact hd2

/-- **an ended session never admits again**: in every run that seals no cookie for a session after
its end, once a refresh has returned the session no later request is identified by it -/
theorem ended_never_admits (cfg : Config) {p0 p1 p : AuthPool} (h0 : Started p0)
    (h1 : (service cfg).machine.Reach SealsBeforeEnd p0 p1)
    (h : (service cfg).machine.Reach SealsBeforeEnd p1 p) {ksid : String}
    (hm : Merged p1.trace ksid) {i : Nat} (hi : p1.threads.length ≤ i) :
    ¬ IdentifiedBy p i ksid := by
  rintro ⟨v, prog, r, cookies, s, raw, e, -, -, -, rfl, -, he, rfl, hc, hopens⟩
  have hall := h1.trans h
  obtain ⟨hg, -, hf⟩ := known h0 hall
  obtain ⟨hl, hcons⟩ := lasting h0 hall
  obtain ⟨older, hs⟩ := exists_suffix_of_mem he
  have hbefore := suffix_of_later (known h0 h1).grounded h.trace_suffix hs hi
  have hne := (hm.mono h.trace_suffix).ne_empty hg hf
  obtain ⟨a, ⟨e', he', hret⟩, hlt⟩ := hcons e older hs s.keycloakSID hc hne (hm.mono hbefore)
  have hret : Returned p.trace s.keycloakSID a :=
    ⟨e', hs.subset (List.mem_cons_of_mem _ he'), hret⟩
  -- the cookie was sealed for a cookie's lifetime, which ended before the lookup
  obtain ⟨e2, he2, ttl, hc2, hexp⟩ := hopens
  obtain ⟨o2, hs2⟩ := exists_suffix_of_mem he2
  have hd := called hg hs2
  rw [hc2] at hd
  obtain ⟨rfl, -⟩ := hd
  have hout := (hl.cookies e2 he2 s sessionTTL raw hc2).2 a hret
  have hend := unix_mono hlt.le
  omega

namespace Sample

/-- Keycloak ends the owner's session in request `i`, and the verifier reads it in the next -/
def ends (i : Nat) : List AuthEvent :=
  .world (.pass (30 * second)) :: .arrive (.backchannelLogout (some [("logout_token", "t")])) ::
    runs i [.ok, .logout (some ⟨some (63900000060 * second), keycloakSID, true, none⟩), .ok] ++
  .arrive .refreshEnded :: runs (i + 1) [.ok, .ok, .ok]

/-- the owner's browser asks for the app, in request `i` -/
def visit (i : Nat) (cs : List Choice) : List AuthEvent :=
  .arrive (.verify ⟨host, "/", "GET", some ⟨"/", [], "/"⟩, [("l", "1")],
    [("Sec-Fetch-Mode", "navigate")], [(sessionCookie, "session")]⟩) :: runs i cs

/-- the last call has added the session to the copy held -/
def merged (p : AuthPool) : Bool :=
  match p.trace with
  | ⟨_, _, ⟨.endedMerge rows, _⟩, _⟩ :: _ => rows.any fun r => r.id == keycloakSID
  | _ => false

/-- the step seals no cookie once an end is recorded -/
def sealsEarly (p : AuthPool) : AuthEvent → Bool
  | .run i (.text _) =>
    match p.threads[i]? with
    | some ⟨_, .call (.seal (.session _) _) _⟩ =>
      p.store.ended.isEmpty && p.trace.all fun e =>
        match e.call with
        | ⟨.endedSessions _, _⟩ => false
        | _ => true
    | _ => true
  | _ => true

end Sample

theorem Sample.merged_trace {p : AuthPool} (h : Sample.merged p = true) :
    Merged p.trace Sample.keycloakSID := by
  unfold Sample.merged at h
  split at h
  · rename_i who req rows x time older htrace
    obtain ⟨r, hr, hid⟩ := List.any_eq_true.mp h
    exact ⟨_, htrace ▸ List.mem_cons_self, rows, x, rfl, r, hr, by simpa using hid⟩
  · cases h

theorem Sample.seals_early {p : AuthPool} {ev : AuthEvent} (h : Sample.sealsEarly p ev = true) :
    SealsBeforeEnd p ev := by
  rintro i handle req v ttl k rfl hth
  simp only [Sample.sealsEarly, hth, Bool.and_eq_true, List.isEmpty_iff, List.all_eq_true] at h
  refine ⟨fun r hr => ?_, ?_⟩
  · rw [h.1] at hr
    cases hr
  · rintro a ⟨e, he, since, rows, hc, -⟩
    have hfalse := h.2 e he
    rw [hc] at hfalse
    cases hfalse

/-- a session that ended after the cookie was sealed, and a visit with the cookie -/
theorem ended_never_admits_visit : ∃ p1 p,
    (service Sample.config).machine.Reach SealsBeforeEnd (Service.start Sample.store) p1 ∧
    (service Sample.config).machine.Reach SealsBeforeEnd p1 p ∧
    Merged p1.trace Sample.keycloakSID ∧ p.threads.length = 7 ∧
    ¬ IdentifiedBy p 6 Sample.keycloakSID := by
  obtain ⟨p1, h1, -, hp1⟩ := Machine.exists_reach_of_runIf (M := (service Sample.config).machine)
    (P := fun _ => True) (c := Sample.sealsEarly) (fun _ _ _ _ _ _ => trivial)
    (fun _ _ _ h => Sample.seals_early h) trivial
    (l := Sample.toConsent ++ Sample.allow 2 ++ Sample.redeem 3 ++ Sample.ends 4)
    (p := fun p => Sample.merged p && decide (p.threads.length = 6) &&
      (((service Sample.config).machine.runIf Sample.sealsEarly p
        (Sample.visit 6 [.ok, .ok, .text Sample.nonce])).any fun p => p.threads.length == 7))
    (s := Service.start Sample.store) (by decide +kernel)
  rw [Bool.and_eq_true, Bool.and_eq_true] at hp1
  obtain ⟨⟨hm, hlen⟩, hrun⟩ := hp1
  obtain ⟨p, h, -, hp⟩ := Machine.exists_reach_of_runIf (P := fun _ => True)
    (fun _ _ _ _ _ _ => trivial) (fun _ _ _ h => Sample.seals_early h) trivial hrun
  exact ⟨p1, p, h1, h, Sample.merged_trace hm, by simpa using hp,
    ended_never_admits Sample.config ⟨_, _, _, rfl⟩ h1 h (Sample.merged_trace hm)
      (of_decide_eq_true hlen).le⟩

/-! ## A consent that was answered late -/

namespace Sample

/-- the consent is answered five minutes after the end, and the app visited when it is forgotten -/
def toVisit : List AuthEvent :=
  .world (.pass (5 * minute)) :: allow 4 ++ redeem 5 ++
  .world (.pass (sessionTTL - 4 * minute)) ::
  .arrive .refreshEnded :: runs 6 [.ok, .ok, .ok] ++ visit 7 [.ok, .ok, .ok, .ok, .ok, .ok]

/-- the last request was let through, the access list read after the session was looked up -/
def identified (p : AuthPool) : Bool :=
  match p.trace, p.threads[7]? with
  | _ :: _ :: _ :: _ :: ⟨i, _, ⟨.endedStatus ksid, (false, true)⟩, time⟩ ::
      ⟨_, _, ⟨.openSession raw, some s⟩, opened⟩ :: _,
    some (⟨.verify v, .pure ⟨_, _, .through _ (some s')⟩⟩ : Thread Ret Request Response) =>
      decide (i = 7 ∧ ksid = keycloakSID ∧ s.keycloakSID = keycloakSID ∧ s = s' ∧ time = opened ∧
        raw ∈ cookieValues v.cookies sessionCookie)
  | _, _ => false

end Sample

theorem Sample.identified_by {p : AuthPool} (hk : Known Sample.config p)
    (h : Sample.identified p = true) : IdentifiedBy p 7 Sample.keycloakSID := by
  unfold Sample.identified at h
  split at h
  · rename_i a b c d i req ksid time who req' raw s opened older v status w cookies s' htrace hth
    obtain ⟨rfl, rfl, hs, rfl, rfl, hraw⟩ := of_decide_eq_true h
    refine ⟨v, _, _, cookies, s, raw, ⟨7, req, _, time⟩, hth, rfl, rfl, hs, hraw, ?_, rfl, rfl, ?_⟩
    · rw [htrace]
      simp
    · have hsuf : ⟨who, req', ⟨.openSession raw, some s⟩, time⟩ :: older <:+ p.trace := by
        rw [htrace]
        exact ⟨[a, b, c, d, _], rfl⟩
      obtain ⟨e, he, ttl, hc, hexp⟩ := hk.found _ _ hsuf s rfl
      exact ⟨e, hsuf.subset (List.mem_cons_of_mem _ he), ttl, hc, hexp⟩
  · cases h

/-- the verifier identifies a browser by a session it was told had ended -/
theorem ended_admits : ¬ ∀ (cfg : Config) (p0 p1 p : AuthPool) (ksid : String) (i : Nat),
    Started p0 → (service cfg).machine.Reach (fun _ _ => True) p0 p1 →
    (service cfg).machine.Reach (fun _ _ => True) p1 p → Merged p1.trace ksid →
    p1.threads.length ≤ i → ¬ IdentifiedBy p i ksid := by
  intro hall
  obtain ⟨p1, h1, hp1⟩ := Machine.exists_reach_of_run (M := (service Sample.config).machine)
    (s := Service.start Sample.store) (l := Sample.toConsent ++ Sample.ends 2)
    (p := fun p => Sample.merged p && decide (p.threads.length ≤ 7) &&
      (((service Sample.config).machine.run p Sample.toVisit).any Sample.identified))
    (by decide +kernel)
  rw [Bool.and_eq_true, Bool.and_eq_true] at hp1
  obtain ⟨⟨hm, hlen⟩, hrun⟩ := hp1
  obtain ⟨p, h, hp⟩ := Machine.exists_reach_of_run hrun
  have h0 : Started (Service.start Sample.store) := ⟨_, _, _, rfl⟩
  exact hall Sample.config _ p1 p _ 7 h0 h1 h (Sample.merged_trace hm) (of_decide_eq_true hlen)
    (Sample.identified_by (known h0 (h1.trans h)) hp)

end Freepod.Auth
