import KeyedTable.Proofs.Gateway.Together

namespace KeyedTable

variable {σ α β : Type}

inductive Happening
  | exchanged (request : Request) (result : Except Error request.Reply)
  | emitted (event : Event)

def Happening.event : Happening → Event
  | .exchanged request result => .asked request (refusal? result)
  | .emitted event => event

namespace Gateway

/-- From a store with some tasks underway and others that have not begun to the store that is left
when all of them have ended. -/
inductive Jointly (g : Gateway σ) :
    σ → List (Task α) → List (σ → Task α) → List Happening → σ → List (Outcome α) → Prop
  | ended {s outcomes} : Jointly g s (outcomes.map .ended) [] [] s outcomes
  | begun {s tasks start starts whole t outcomes} :
      Jointly g s (tasks ++ [start s]) starts whole t outcomes →
      Jointly g s tasks (start :: starts) whole t outcomes
  | exchanged {s t u before request answered after starts result whole outcomes} :
      g.store.answer request s = (result, t) →
      Jointly g t (before ++ answered result :: after) starts whole u outcomes →
      Jointly g s (before ++ .ask request answered :: after) starts
        (.exchanged request result :: whole) u outcomes
  | emitted {s u before event rest after starts whole outcomes} :
      Jointly g (g.receive event s) (before ++ rest :: after) starts whole u outcomes →
      Jointly g s (before ++ .emit event rest :: after) starts (.emitted event :: whole) u outcomes
  | paused {s u before rest after starts whole outcomes} :
      Jointly g s (before ++ rest :: after) starts whole u outcomes →
      Jointly g s (before ++ .pause rest :: after) starts whole u outcomes

variable {g : Gateway σ}

def Leads (g : Gateway σ) (s : σ) (tasks : List (Task α)) (own : List Happening) (t : σ)
    (rests : List (Task α)) : Prop :=
  ∀ ⦃starts whole u outcomes⦄, g.Jointly t rests starts whole u outcomes →
    g.Jointly s tasks starts (own ++ whole) u outcomes

theorem Leads.trans {s t u : σ} {tasks rests lasts : List (Task α)} {own more : List Happening}
    (h : g.Leads s tasks own t rests) (hrest : g.Leads t rests more u lasts) :
    g.Leads s tasks (own ++ more) u lasts := by
  intro _ _ _ _ hlast
  rw [List.append_assoc]
  exact h (hrest hlast)

theorem leads_refl (s : σ) (tasks : List (Task α)) : g.Leads s tasks [] s tasks :=
  fun _ _ _ _ h => h

theorem exists_leads_poll (task : Task α) (s : σ) :
    ∃ rest t own, g.poll task s = ⟨.done rest, t, own.map Happening.event⟩ ∧
      ∀ before after, g.Leads s (before ++ task :: after) own t (before ++ rest :: after) := by
  induction task generalizing s with
  | ended outcome => exact ⟨_, s, [], rfl, fun _ _ => leads_refl s _⟩
  | ask request answered ih =>
    obtain ⟨rest, t, own, hpoll, hleads⟩ := ih (g.store.answer request s).1
      (g.store.answer request s).2
    refine ⟨rest, t, .exchanged request _ :: own, congrArg (Ran.after _) hpoll,
      fun before after => ?_⟩
    exact fun _ _ _ _ h => .exchanged rfl (hleads before after h)
  | emit event rest ih =>
    obtain ⟨rest, t, own, hpoll, hleads⟩ := ih (g.receive event s)
    exact ⟨rest, t, .emitted event :: own, congrArg (Ran.after _) hpoll,
      fun before after _ _ _ _ h => .emitted (hleads before after h)⟩
  | pause rest ih => exact ⟨rest, s, [], rfl, fun _ _ _ _ _ _ h => .paused h⟩

theorem exists_leads_carryOut (task : Task α) (s : σ) :
    ∃ outcome t own, g.carryOut task s = ⟨outcome, t, own.map Happening.event⟩ ∧
      ∀ before after, g.Leads s (before ++ task :: after) own t
        (before ++ .ended outcome :: after) := by
  induction task generalizing s with
  | ended outcome => exact ⟨_, s, [], rfl, fun _ _ => leads_refl s _⟩
  | ask request answered ih =>
    obtain ⟨outcome, t, own, hran, hleads⟩ := ih (g.store.answer request s).1
      (g.store.answer request s).2
    refine ⟨outcome, t, .exchanged request _ :: own, congrArg (Ran.after _) hran,
      fun before after => ?_⟩
    exact fun _ _ _ _ h => .exchanged rfl (hleads before after h)
  | emit event rest ih =>
    obtain ⟨outcome, t, own, hran, hleads⟩ := ih (g.receive event s)
    exact ⟨outcome, t, .emitted event :: own, congrArg (Ran.after _) hran,
      fun before after _ _ _ _ h => .emitted (hleads before after h)⟩
  | pause rest ih =>
    obtain ⟨outcome, t, own, hran, hleads⟩ := ih s
    exact ⟨outcome, t, own, hran, fun before after _ _ _ _ h => .paused (hleads before after h)⟩

theorem exists_leads_all (tasks : List (Task α)) (before : List (Task α)) (s : σ) :
    ∃ outcomes t own,
      Action.all (tasks.map g.carryOut) s = ⟨.all outcomes, t, own.map Happening.event⟩ ∧
      g.Leads s (before ++ tasks) own t (before ++ outcomes.map .ended) := by
  induction tasks generalizing before s with
  | nil => exact ⟨[], s, [], rfl, leads_refl s _⟩
  | cons task tasks ih =>
    obtain ⟨outcome, t, first, hran, hfirst⟩ := g.exists_leads_carryOut task s
    obtain ⟨outcomes, u, rest, hall, hrest⟩ := ih (before ++ [.ended outcome]) t
    rw [List.append_assoc, List.append_assoc] at hrest
    refine ⟨outcome :: outcomes, u, first ++ rest, ?_, (hfirst before tasks).trans hrest⟩
    rw [List.map_append]
    exact Action.all_cons_of_all hran hall

theorem exists_leads_takeUp (tasks : List (Task α)) (number : Nat) (s : σ) :
    ∃ rests t own, g.takeUp tasks number s = ⟨.done rests, t, own.map Happening.event⟩ ∧
      g.Leads s tasks own t rests := by
  cases htask : tasks[number]? with
  | none => exact ⟨tasks, s, [], by simp only [takeUp, htask]; rfl, leads_refl s tasks⟩
  | some task =>
    obtain ⟨hnumber, rfl⟩ := List.getElem?_eq_some_iff.mp htask
    obtain ⟨rest, t, own, hpoll, hleads⟩ := g.exists_leads_poll tasks[number] s
    refine ⟨tasks.set number rest, t, own ++ [], ?_, ?_⟩
    · simp only [takeUp, htask]
      rw [List.map_append]
      exact Action.bind_of_eq hpoll rfl
    · have hset := hleads (tasks.take number) (tasks.drop (number + 1))
      rw [List.append_nil, List.set_eq_take_append_cons_drop, if_pos hnumber]
      rwa [← List.drop_eq_getElem_cons hnumber, List.take_append_drop] at hset

theorem exists_leads_schedule (schedule : List Nat) (tasks : List (Task α)) (s : σ) :
    ∃ rests t own, (schedule.foldlM g.takeUp tasks) s = ⟨.done rests, t, own.map Happening.event⟩ ∧
      g.Leads s tasks own t rests := by
  induction schedule generalizing tasks s with
  | nil => exact ⟨tasks, s, [], rfl, leads_refl s tasks⟩
  | cons number schedule ih =>
    obtain ⟨rests, t, own, hturn, hfirst⟩ := g.exists_leads_takeUp tasks number s
    obtain ⟨lasts, u, more, hrest, hleads⟩ := ih rests t
    refine ⟨lasts, u, own ++ more, ?_, hfirst.trans hleads⟩
    rw [List.foldlM_cons, List.map_append]
    exact Action.bind_of_eq hturn hrest

theorem exists_jointly_begun (starts : List (σ → Task α)) (before : List (Task α)) (s : σ) :
    ∃ tasks t own,
      Action.all (starts.map g.begin) s =
        ⟨.done tasks, t, own.map Happening.event⟩ ∧
      ∀ ⦃whole u outcomes⦄, g.Jointly t (before ++ tasks) [] whole u outcomes →
        g.Jointly s before starts (own ++ whole) u outcomes := by
  induction starts generalizing before s with
  | nil => exact ⟨[], s, [], rfl, fun _ _ _ h => by rwa [List.append_nil] at h⟩
  | cons start starts ih =>
    obtain ⟨rest, t, first, hpoll, hfirst⟩ := g.exists_leads_poll (start s) s
    obtain ⟨tasks, u, more, hall, hrest⟩ := ih (before ++ [rest]) t
    refine ⟨rest :: tasks, u, first ++ more, ?_, fun _ _ _ h => ?_⟩
    · rw [List.map_append]
      exact Action.all_cons_of_eq hpoll hall
    · rw [List.append_cons] at h
      rw [List.append_assoc]
      exact .begun (hfirst before [] (hrest h))

/-- What tasks at the same time come to, by whatever schedule. -/
theorem exists_jointly (g : Gateway σ) (schedule : List Nat) (starts : List (σ → Task α)) (s : σ) :
    ∃ whole t outcomes,
      g.together schedule starts s = ⟨.all outcomes, t, whole.map Happening.event⟩ ∧
      g.Jointly s [] starts whole t outcomes := by
  obtain ⟨tasks, t, first, hbegun, hfirst⟩ := g.exists_jointly_begun starts [] s
  obtain ⟨rests, u, own, hschedule, hleads⟩ := g.exists_leads_schedule schedule tasks t
  obtain ⟨outcomes, v, last, hall, hlast⟩ := g.exists_leads_all rests [] u
  have hran : g.together schedule starts s =
      ⟨.all outcomes, v, (first ++ (own ++ last)).map Happening.event⟩ := by
    rw [List.map_append, List.map_append]
    exact Action.bind_of_eq hbegun (Action.bind_of_eq hschedule hall)
  have hend := hlast (Jointly.ended)
  rw [List.append_nil] at hend
  exact ⟨_, v, outcomes, hran, hfirst (hleads hend)⟩

end Gateway

end KeyedTable
