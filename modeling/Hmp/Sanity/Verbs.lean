import Hmp.Spec.Resources

/-! What the calls on the libraries leave, and the outcomes of `hmp_cq_get`. -/

namespace HMP

namespace World

/-! ## Calls -/

section calls

variable (w : World) (fd : ℕ)

theorem channelUsed_iff : w.ChannelUsed fd ↔ ∃ c cq, w.cqs.get c = some cq ∧ cq.channel = fd := by
  constructor
  · rintro ⟨c, -, hc⟩
    obtain ⟨cq, hcq, hch⟩ := (Option.any_eq_true ..).mp hc
    exact ⟨c, cq, hcq, of_decide_eq_true hch⟩
  · rintro ⟨c, cq, hc, rfl⟩
    exact .of_get hc

@[simp] theorem closeFd_cqs : (w.closeFd fd).cqs = w.cqs := by
  unfold closeFd
  split_ifs <;> rfl

@[simp] theorem closeFd_qps : (w.closeFd fd).qps = w.qps := by
  unfold closeFd
  split_ifs <;> rfl

@[simp] theorem closeFd_hcqs : (w.closeFd fd).hcqs = w.hcqs := by
  unfold closeFd
  split_ifs <;> rfl

@[simp] theorem closeFd_mrs : (w.closeFd fd).mrs = w.mrs := by
  unfold closeFd
  split_ifs <;> rfl

theorem closeFd_files (h : ¬ w.ChannelUsed fd) : (w.closeFd fd).files = w.files.free fd := by
  rw [closeFd, dif_neg h]

theorem closeFd_epoll (h : ¬ w.ChannelUsed fd) :
    (w.closeFd fd).epoll = Function.update w.epoll fd none := by
  rw [closeFd, dif_neg h]

/-- No queue uses a descriptor before it is opened. -/
theorem not_channelUsed_next : ¬ w.ChannelUsed w.files.next := by
  rw [channelUsed_iff]
  rintro ⟨c, cq, hc, hch⟩
  have hfile := w.cq_channel c cq hc
  rw [hch, Heap.get_next] at hfile
  cases hfile

theorem epoll_next : w.epoll w.files.next = none := w.epoll_live _ w.files.get_next

variable (k : FdKind) (h data : ℕ) (f : HmpCq → HmpCq) (e : EventHandler) (ok : Bool)

@[simp] theorem openFd_files : (w.openFd k).files = w.files.alloc k := rfl
@[simp] theorem openFd_cqs : (w.openFd k).cqs = w.cqs := rfl
@[simp] theorem openFd_qps : (w.openFd k).qps = w.qps := rfl
@[simp] theorem openFd_hcqs : (w.openFd k).hcqs = w.hcqs := rfl
@[simp] theorem openFd_mrs : (w.openFd k).mrs = w.mrs := rfl
@[simp] theorem openFd_epoll : (w.openFd k).epoll = w.epoll := rfl
@[simp] theorem callocHcq_files : w.callocHcq.files = w.files := rfl
@[simp] theorem callocHcq_cqs : w.callocHcq.cqs = w.cqs := rfl
@[simp] theorem callocHcq_qps : w.callocHcq.qps = w.qps := rfl
@[simp] theorem callocHcq_hcqs : w.callocHcq.hcqs = w.hcqs.alloc {} := rfl
@[simp] theorem callocHcq_mrs : w.callocHcq.mrs = w.mrs := rfl
@[simp] theorem callocHcq_epoll : w.callocHcq.epoll = w.epoll := rfl
@[simp] theorem modifyHcq_files : (w.modifyHcq h f).files = w.files := rfl
@[simp] theorem modifyHcq_cqs : (w.modifyHcq h f).cqs = w.cqs := rfl
@[simp] theorem modifyHcq_qps : (w.modifyHcq h f).qps = w.qps := rfl
@[simp] theorem modifyHcq_hcqs : (w.modifyHcq h f).hcqs = w.hcqs.modify h f := rfl
@[simp] theorem modifyHcq_mrs : (w.modifyHcq h f).mrs = w.mrs := rfl
@[simp] theorem modifyHcq_epoll : (w.modifyHcq h f).epoll = w.epoll := rfl
@[simp] theorem freeHcq_files : (w.freeHcq h).files = w.files := rfl
@[simp] theorem freeHcq_cqs : (w.freeHcq h).cqs = w.cqs := rfl
@[simp] theorem freeHcq_qps : (w.freeHcq h).qps = w.qps := rfl
@[simp] theorem freeHcq_hcqs : (w.freeHcq h).hcqs = w.hcqs.free h := rfl
@[simp] theorem freeHcq_mrs : (w.freeHcq h).mrs = w.mrs := rfl
@[simp] theorem freeHcq_epoll : (w.freeHcq h).epoll = w.epoll := rfl
@[simp] theorem delEventFd_files : (w.delEventFd fd).files = w.files := rfl
@[simp] theorem delEventFd_cqs : (w.delEventFd fd).cqs = w.cqs := rfl
@[simp] theorem delEventFd_qps : (w.delEventFd fd).qps = w.qps := rfl
@[simp] theorem delEventFd_hcqs : (w.delEventFd fd).hcqs = w.hcqs := rfl
@[simp] theorem delEventFd_mrs : (w.delEventFd fd).mrs = w.mrs := rfl

theorem delEventFd_epoll : (w.delEventFd fd).epoll = (hmpContextDelEventFd w.epoll fd).1 := rfl

@[simp] theorem addEventFd_files : (w.addEventFd fd data e ok).1.files = w.files := by
  unfold addEventFd
  split_ifs <;> rfl

@[simp] theorem addEventFd_cqs : (w.addEventFd fd data e ok).1.cqs = w.cqs := by
  unfold addEventFd
  split_ifs <;> rfl

@[simp] theorem addEventFd_qps : (w.addEventFd fd data e ok).1.qps = w.qps := by
  unfold addEventFd
  split_ifs <;> rfl

@[simp] theorem addEventFd_hcqs : (w.addEventFd fd data e ok).1.hcqs = w.hcqs := by
  unfold addEventFd
  split_ifs <;> rfl

@[simp] theorem addEventFd_mrs : (w.addEventFd fd data e ok).1.mrs = w.mrs := by
  unfold addEventFd
  split_ifs <;> rfl

/-- A descriptor that is open and not registered can be added, if there is memory. -/
theorem addEventFd_ret {w : World} {fd : ℕ} (hfile : (w.files.get fd).isSome)
    (hep : w.epoll fd = none) (data : ℕ) (e : EventHandler) (ok : Bool) :
    (w.addEventFd fd data e ok).2 = if ok then 0 else -1 := by
  unfold addEventFd hmpContextAddEventFd
  cases ok
  · simp
  · simp [hfile, hep]

theorem addEventFd_failed {w : World} {fd data : ℕ} {e : EventHandler} {ok : Bool}
    (h : (w.addEventFd fd data e ok).2 ≠ 0) : (w.addEventFd fd data e ok).1 = w := by
  unfold addEventFd at h ⊢
  split_ifs at h ⊢
  · exact absurd rfl h
  · rfl

/-- Deleting what has just been added restores the set. -/
theorem delEventFd_addEventFd_epoll {w : World} {fd : ℕ} (hep : w.epoll fd = none) (data : ℕ)
    (e : EventHandler) (ok : Bool) :
    ((w.addEventFd fd data e ok).1.delEventFd fd).epoll = w.epoll := by
  funext fd'
  rw [delEventFd_epoll]
  by_cases hfd : fd' = fd
  · rw [hfd, hmpContextDelEventFd_self, hep]
  · rw [hmpContextDelEventFd_of_ne _ hfd]
    unfold addEventFd
    split_ifs
    · exact hmpContextAddEventFd_of_ne w.epoll data e ok hfd
    · rfl

theorem ibvCreateCq_cqs {w : World} {fd : ℕ} (h : w.files.get fd = some .compChannel) :
    (w.ibvCreateCq fd).cqs = w.cqs.alloc { channel := fd } := by
  rw [ibvCreateCq, dif_pos h]

@[simp] theorem ibvCreateCq_files : (w.ibvCreateCq fd).files = w.files := by
  unfold ibvCreateCq
  split_ifs <;> rfl

@[simp] theorem ibvCreateCq_qps : (w.ibvCreateCq fd).qps = w.qps := by
  unfold ibvCreateCq
  split_ifs <;> rfl

@[simp] theorem ibvCreateCq_mrs : (w.ibvCreateCq fd).mrs = w.mrs := by
  unfold ibvCreateCq
  split_ifs <;> rfl

@[simp] theorem cleanEventFd_cqs : (w.cleanEventFd h fd).cqs = w.cqs := by
  simp [cleanEventFd, cleanChannel, cleanHcq]

@[simp] theorem ibvDestroyCq_files (c : ℕ) : (w.ibvDestroyCq c).files = w.files := by
  unfold ibvDestroyCq
  split_ifs <;> rfl

@[simp] theorem ibvDestroyCq_qps (c : ℕ) : (w.ibvDestroyCq c).qps = w.qps := by
  unfold ibvDestroyCq
  split_ifs <;> rfl

@[simp] theorem ibvDestroyCq_mrs (c : ℕ) : (w.ibvDestroyCq c).mrs = w.mrs := by
  unfold ibvDestroyCq
  split_ifs <;> rfl

@[simp] theorem releaseHcq_files : (w.releaseHcq h).files = w.files := by
  unfold releaseHcq
  cases w.hcqs.get h with
  | none => rfl
  | some x => cases hq : x.cq <;> cases hc : x.compChannel <;> simp [hq, hc]

end calls

/-! ## What is left -/

/-- The same descriptors, queues, registrations and `struct hmp_cq` as before. -/
structure Same (w w' : World) : Prop where
  files : w'.files.get = w.files.get
  cqs : w'.cqs.get = w.cqs.get
  qps : w'.qps.get = w.qps.get
  hcqs : w'.hcqs.get = w.hcqs.get
  epoll : w'.epoll = w.epoll

theorem Same.refl (w : World) : Same w w := ⟨rfl, rfl, rfl, rfl, rfl⟩

/-- `hmp_cq_get` with a completion channel in its `struct hmp_cq`. -/
def withChannel (w : World) : World :=
  (w.callocHcq.openFd .compChannel).modifyHcq w.hcqs.next fun x =>
    { x with compChannel := some w.files.next }

theorem cleanHcq_callocHcq (w : World) : Same w (w.callocHcq.cleanHcq w.hcqs.next) :=
  ⟨rfl, rfl, rfl, Heap.free_alloc_get .., rfl⟩

/-- Opening and closing. -/
theorem closeFd_openFd (w : World) (k : FdKind) : Same w ((w.openFd k).closeFd w.files.next) := by
  have hused : ¬ (w.openFd k).ChannelUsed w.files.next := w.not_channelUsed_next
  refine ⟨?_, ?_, ?_, ?_, ?_⟩
  · simp [closeFd_files _ _ hused]
  · simp
  · simp
  · simp
  · rw [closeFd_epoll _ _ hused, openFd_epoll, ← w.epoll_next, Function.update_eq_self]

/-- The channel is closed again when only it has been opened and, perhaps, registered. -/
theorem cleanChannel_same {w w' : World} (hfiles : w'.files = w.files.alloc .compChannel)
    (hcqs : w'.cqs = w.cqs) (hqps : w'.qps = w.qps)
    (hhcqs : w'.hcqs = w.withChannel.hcqs) (hep : w'.epoll = w.epoll) :
    Same w (w'.cleanChannel w.hcqs.next w.files.next) := by
  have hused : ¬ w'.ChannelUsed w.files.next := by
    rw [channelUsed_iff, hcqs, ← channelUsed_iff]
    exact w.not_channelUsed_next
  refine ⟨?_, ?_, ?_, ?_, ?_⟩
  · simp [cleanChannel, cleanHcq, closeFd_files w' _ hused, hfiles]
  · simp [cleanChannel, cleanHcq, hcqs]
  · simp [cleanChannel, cleanHcq, hqps]
  · simp [cleanChannel, cleanHcq, hhcqs, withChannel]
  · simp only [cleanChannel, cleanHcq, freeHcq_epoll, closeFd_epoll w' _ hused, hep]
    rw [← w.epoll_next, Function.update_eq_self]

/-- The channel of `withChannel` is a new one. -/
theorem withChannel_add_ret (w : World) (ok : Bool) :
    (w.withChannel.addEventFd w.files.next w.hcqs.next .hmpCqCompChannelHandler ok).2 =
      if ok then 0 else -1 := by
  have hfile : (w.withChannel.files.get w.files.next).isSome := by
    simp [withChannel]
  exact addEventFd_ret hfile w.epoll_next ..

/-! ## `hmp_cq_get` -/

/-- The channel is registered. -/
def registered (w : World) : World :=
  (w.withChannel.addEventFd w.files.next w.hcqs.next .hmpCqCompChannelHandler true).1

/-- The queue is created. -/
def withCq (w : World) : World :=
  (w.registered.ibvCreateCq w.files.next).modifyHcq w.hcqs.next fun x =>
    { x with cq := some w.cqs.next }

@[simp] theorem registered_files (w : World) :
    w.registered.files = w.files.alloc .compChannel := addEventFd_files ..

@[simp] theorem registered_cqs (w : World) : w.registered.cqs = w.cqs := addEventFd_cqs ..

@[simp] theorem withCq_files (w : World) : w.withCq.files = w.files.alloc .compChannel := by
  simp [withCq]

@[simp] theorem withCq_cqs (w : World) :
    w.withCq.cqs = w.cqs.alloc { channel := w.files.next } := by
  have hfile : w.registered.files.get w.files.next = some .compChannel := by simp
  rw [withCq, modifyHcq_cqs, ibvCreateCq_cqs hfile, registered_cqs]

/-- The descriptor of a new channel is open and not yet registered, so that adding it fails for lack
of memory only. -/
theorem hmpCqGet_eq (w : World) (o : QpCalls) : w.hmpCqGet o =
    if o.hcq then
      if o.compChannel then
        if o.getFl ∧ o.setFl then
          if o.addFd then
            if o.createCq then
              if o.reqNotify = 0 then (w.withCq, some w.hcqs.next)
              else (w.withCq.cleanEventFd w.hcqs.next w.files.next, none)
            else (w.registered.cleanEventFd w.hcqs.next w.files.next, none)
          else (w.withChannel.cleanChannel w.hcqs.next w.files.next, none)
        else (w.withChannel.cleanChannel w.hcqs.next w.files.next, none)
      else (w.callocHcq.cleanHcq w.hcqs.next, none)
    else (w, none) := by
  have hret := w.withChannel_add_ret o.addFd
  have hcqs : (w.withChannel.addEventFd w.files.next w.hcqs.next .hmpCqCompChannelHandler
      o.addFd).1.cqs.next = w.cqs.next := by simp [withChannel]
  have hw : (w.callocHcq.openFd .compChannel).modifyHcq w.hcqs.next
      (fun x => { x with compChannel := some w.files.next }) = w.withChannel := rfl
  unfold hmpCqGet
  simp only [callocHcq_files, hw, hret, hcqs]
  cases ha : o.addFd with
  | true => simp [withCq, registered]
  | false =>
    have hfail : (w.withChannel.addEventFd w.files.next w.hcqs.next .hmpCqCompChannelHandler
        false).1 = w.withChannel := addEventFd_failed (by rw [withChannel_add_ret]; decide)
    simp [hfail]

end World

/-- A call before `ibv_req_notify_cq` fails. -/
def QpCalls.early (o : QpCalls) : Bool :=
  !(o.hcq && o.compChannel && (o.getFl && o.setFl) && o.addFd && o.createCq)

namespace World

/-- A failure before `ibv_req_notify_cq` is undone. -/
theorem hmpCqGet_early (w : World) {o : QpCalls} (h : o.early = true) :
    (w.hmpCqGet o).2 = none ∧ Same w (w.hmpCqGet o).1 := by
  have hchannel : Same w (w.withChannel.cleanChannel w.hcqs.next w.files.next) :=
    cleanChannel_same rfl rfl rfl rfl rfl
  have hevent : Same w (w.registered.cleanEventFd w.hcqs.next w.files.next) :=
    cleanChannel_same (registered_files w) (registered_cqs w) (addEventFd_qps ..)
      (addEventFd_hcqs ..) (delEventFd_addEventFd_epoll (w := w.withChannel) w.epoll_next ..)
  rw [hmpCqGet_eq]
  split_ifs with hh hc hf ha hq
  · simp [QpCalls.early, hh, hc, hf.1, hf.2, ha, hq] at h
  · simp [QpCalls.early, hh, hc, hf.1, hf.2, ha, hq] at h
  · exact ⟨rfl, hevent⟩
  · exact ⟨rfl, hchannel⟩
  · exact ⟨rfl, hchannel⟩
  · exact ⟨rfl, cleanHcq_callocHcq w⟩
  · exact ⟨rfl, .refl w⟩

/-- Otherwise the queue has been created. -/
theorem hmpCqGet_late (w : World) {o : QpCalls} (h : o.early = false) : w.hmpCqGet o =
    if o.reqNotify = 0 then (w.withCq, some w.hcqs.next)
    else (w.withCq.cleanEventFd w.hcqs.next w.files.next, none) := by
  simp only [QpCalls.early, Bool.not_eq_false', Bool.and_eq_true] at h
  obtain ⟨⟨⟨⟨hh, hc⟩, hf⟩, ha⟩, hq⟩ := h
  rw [hmpCqGet_eq, if_pos hh, if_pos hc, if_pos hf, if_pos ha, if_pos hq]

end World

end HMP
