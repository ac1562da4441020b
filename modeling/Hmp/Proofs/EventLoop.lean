import Hmp.Spec.EventLoop

/-! Deleting a descriptor takes it out of the epoll set, and out of nothing else: an event that
`epoll_wait` has returned before still reaches its handler. -/

namespace HMP.EventLoop

variable {H : Type} [DecidableEq H]

/-! ## A descriptor without events -/

/-- `fd` is not registered, and no event of it waits for its handler. -/
structure Off (s : EventLoop H) (fd : ℕ) : Prop where
  epoll : s.epoll fd = none
  batch : ∀ d ∈ s.batch, d.fd ≠ fd

theorem off_step {s s' : EventLoop H} {fd : ℕ} {e : LoopEvent H} (h : s.Off fd)
    (hok : NotAdded fd s e) (hs : s.step e = some s') :
    s'.Off fd ∧ s'.callsOf fd = s.callsOf fd := by
  cases e with
  | epollWait events =>
    simp only [step, Option.ite_none_right_eq_some, Option.some.injEq] at hs
    obtain ⟨⟨-, hrep, -⟩, rfl⟩ := hs
    refine ⟨⟨h.epoll, fun d hd hfd => ?_⟩, rfl⟩
    -- epoll reports what is registered
    have hreg := hrep d hd
    rw [hfd, h.epoll] at hreg
    cases hreg
  | call =>
    simp only [step, Option.ite_none_right_eq_some] at hs
    obtain ⟨-, hs⟩ := hs
    split at hs
    · cases hs
    · rename_i d rest hb
      obtain rfl := Option.some.inj hs
      have hd : d.fd ≠ fd := h.batch d (by rw [hb]; exact List.mem_cons_self)
      refine ⟨⟨h.epoll, fun d' hd' => h.batch d' (by rw [hb]; exact List.mem_cons_of_mem d hd')⟩, ?_⟩
      simp [callsOf, List.filter_append, hd]
  | ret =>
    simp only [step, Option.ite_none_right_eq_some, Option.some.injEq] at hs
    obtain ⟨-, rfl⟩ := hs
    exact ⟨⟨h.epoll, h.batch⟩, rfl⟩
  | checkStop =>
    simp only [step, Option.ite_none_right_eq_some, Option.some.injEq] at hs
    obtain ⟨-, rfl⟩ := hs
    exact ⟨⟨h.epoll, h.batch⟩, rfl⟩
  | add fd' data f ok =>
    obtain rfl := Option.some.inj hs
    exact ⟨⟨hmpContextAddEventFd_of_none h.epoll hok, h.batch⟩, rfl⟩
  | del fd' =>
    obtain rfl := Option.some.inj hs
    exact ⟨⟨hmpContextDelEventFd_of_none fd' h.epoll, h.batch⟩, rfl⟩
  | stop =>
    obtain rfl := Option.some.inj hs
    exact ⟨⟨h.epoll, h.batch⟩, rfl⟩

theorem Off.silent {s : EventLoop H} {fd : ℕ} (h : s.Off fd) : s.Silent fd := by
  intro s' hr
  exact (hr.keeps (I := fun x => x.Off fd ∧ x.callsOf fd = s.callsOf fd)
    (fun _ _ _ hx hok hs => (off_step hx.1 hok hs).imp_right fun hc => hc.trans hx.2)
    ⟨h, rfl⟩).2

/-! ## The rest of a batch -/

/-- Events wait only while the loop goes through them. -/
def BatchOk (s : EventLoop H) : Prop := s.batch = [] ∨ s.pc = .events ∨ s.pc = .handler

theorem batchOk_step {s s' : EventLoop H} {e : LoopEvent H} (h : s.BatchOk)
    (hs : s.step e = some s') : s'.BatchOk := by
  cases e with
  | epollWait events =>
    simp only [step, Option.ite_none_right_eq_some, Option.some.injEq] at hs
    obtain ⟨-, rfl⟩ := hs
    exact .inr (.inl rfl)
  | call =>
    simp only [step, Option.ite_none_right_eq_some] at hs
    obtain ⟨-, hs⟩ := hs
    split at hs
    · cases hs
    · obtain rfl := Option.some.inj hs
      exact .inr (.inr rfl)
  | ret =>
    simp only [step, Option.ite_none_right_eq_some, Option.some.injEq] at hs
    obtain ⟨-, rfl⟩ := hs
    exact .inr (.inl rfl)
  | checkStop =>
    simp only [step, Option.ite_none_right_eq_some, Option.some.injEq] at hs
    obtain ⟨⟨-, hb⟩, rfl⟩ := hs
    exact .inl hb
  | add | del | stop =>
    obtain rfl := Option.some.inj hs
    exact h

theorem batchOk_reach {s : EventLoop H} (h : sys.Reach Sys.Always s) : s.BatchOk :=
  h.inv (I := BatchOk) (by rintro s rfl; exact .inl rfl) fun _ _ _ hi _ hs => batchOk_step hi hs

/-- The loop calls the handlers of the events that wait, one after the other. -/
theorem run_batch (fd : ℕ) : ∀ (pre : List (EventData H)) {s : EventLoop H} {rest},
    s.pc = .events ∨ s.pc = .handler → s.batch = pre ++ rest →
      ∃ s', sys.Run (NotAdded fd) s s' ∧ s'.calls = s.calls ++ pre ∧
        (s'.pc = .events ∨ s'.pc = .handler) := by
  intro pre
  induction pre with
  | nil => exact fun hpc _ => ⟨_, .nil, by simp, hpc⟩
  | cons d pre ih =>
    intro s rest hpc hb
    -- the handler that runs returns first
    obtain ⟨s₁, hr₁, he₁⟩ : ∃ s₁, sys.Run (NotAdded fd) s s₁ ∧ s₁ = { s with pc := .events } := by
      rcases hpc with hpc | hpc
      · exact ⟨s, .nil, by rw [← hpc]⟩
      · exact ⟨_, Sys.Run.nil.snoc (e := .ret) trivial (by simp [sys, step, hpc]), rfl⟩
    have hcall : sys.step s₁ .call =
        some { s with pc := .handler, batch := pre ++ rest, calls := s.calls ++ [d] } := by
      subst he₁
      simp [sys, step, hb]
    obtain ⟨s', hr, hc, hpc'⟩ := ih (s := { s with
      pc := .handler, batch := pre ++ rest, calls := s.calls ++ [d] }) (.inr rfl) rfl
    have hcalled : sys.Run (NotAdded fd) s _ := hr₁.snoc (e := .call) (by trivial) hcall
    refine ⟨s', hcalled.trans hr, ?_, hpc'⟩
    rw [hc, List.append_assoc, List.singleton_append]

theorem batch_of_silent {s : EventLoop H} {fd : ℕ} (h : sys.Reach Sys.Always s)
    (hsilent : (s.delFd fd).Silent fd) : ∀ d ∈ s.batch, d.fd ≠ fd := by
  intro d hd hfd
  obtain ⟨pre, rest, hb⟩ := List.append_of_mem hd
  have hb' : (s.delFd fd).batch = (pre ++ [d]) ++ rest := by simp [delFd, hb]
  have hpc : s.pc = .events ∨ s.pc = .handler := (batchOk_reach h).resolve_left (by rw [hb]; simp)
  obtain ⟨s', hr, hc, -⟩ := run_batch fd (pre ++ [d]) (s := s.delFd fd) hpc hb'
  -- the call of `d` is one call more
  have hcalls := congrArg List.length (hsilent s' hr)
  simp [callsOf, hc, hfd] at hcalls

/-- After a descriptor has been deleted its handler is not called, until it is added again, if and
only if no event of it is left in the batch. -/
theorem silent_iff {s : EventLoop H} {fd : ℕ} (h : sys.Reach Sys.Always s) :
    (s.delFd fd).Silent fd ↔ ∀ d ∈ s.batch, d.fd ≠ fd :=
  ⟨batch_of_silent h, fun hb => Off.silent ⟨hmpContextDelEventFd_self s.epoll fd, hb⟩⟩

/-- The event channel of a transport and the completion channel of its queue pair. -/
def sampleEc : EventData EventHandler :=
  { fd := 5, data := 100, eventHandler := .hmpEventChannelHandler }

def sampleCompChannel : EventData EventHandler :=
  { fd := 6, data := 200, eventHandler := .hmpCqCompChannelHandler }

def addSample (d : EventData EventHandler) : LoopEvent EventHandler :=
  .add d.fd d.data d.eventHandler true

/-- epoll reports both, and the event of the event channel is DISCONNECTED: `on_cm_disconnected`
is about to delete the two descriptors. -/
def sampleBatch : List (LoopEvent EventHandler) :=
  [addSample sampleEc, addSample sampleCompChannel, .epollWait [sampleEc, sampleCompChannel], .call]

/-- The descriptor of the event channel itself has no further event. -/
theorem silent_iff_ec :
    ∃ s : EventLoop EventHandler, sys.Reach Sys.Always s ∧ (s.epoll 5).isSome ∧
      (s.delFd 5).Silent 5 := by
  obtain ⟨s, hr, hb⟩ := Sys.exists_run_of_replay sys Sys.Always {} sampleBatch
    (p := fun s => (s.epoll 5).isSome ∧ ∀ d ∈ s.batch, d.fd ≠ 5) (by decide)
  have hreach : sys.Reach Sys.Always s := ⟨{}, rfl, hr⟩
  exact ⟨s, hreach, hb.1, (silent_iff hreach).mpr hb.2⟩

/-- The handler of the completion channel runs after its descriptor has been deleted. -/
theorem deleted_handler_runs : ∃ s : EventLoop EventHandler, sys.Reach Sys.Always s ∧
    (hmpContextDelEventFd s.epoll 6).2 = 0 ∧ ¬ (s.delFd 6).Silent 6 := by
  obtain ⟨s, hr, hdel, hb⟩ := Sys.exists_run_of_replay sys Sys.Always {} sampleBatch
    (p := fun s => (hmpContextDelEventFd s.epoll 6).2 = 0 ∧ ∃ d ∈ s.batch, d.fd = 6) (by decide)
  obtain ⟨d, hd, hfd⟩ := hb
  exact ⟨s, ⟨{}, rfl, hr⟩, hdel, fun h => batch_of_silent ⟨{}, rfl, hr⟩ h d hd hfd⟩

end HMP.EventLoop
