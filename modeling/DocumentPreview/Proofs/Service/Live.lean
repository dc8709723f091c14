import DocumentPreview.Proofs.Recovery.Operations
import DocumentPreview.Proofs.Service.Conforming
import DocumentPreview.Proofs.Store.Budget
import Mathlib.Data.List.Pairwise

namespace DocumentPreview

open Program

def ServiceCall.created? : (c : ServiceCall) → c.Reply → Option Job
  | .store (.create ..), .ok (job, true) => some job
  | _, _ => none

def creations (past : List Event) : List Job :=
  past.filterMap fun e => e.call.created? e.reply

theorem creations_snoc (past : List Event) (e : Event) :
    creations (past ++ [e]) = creations past ++ (e.call.created? e.reply).toList := by
  cases h : e.call.created? e.reply <;> simp [creations, h]

def Successive (past : List Event) : Prop :=
  (creations past).Pairwise (·.createdAt < ·.createdAt)

theorem Successive.init {past : List Event} {e : Event} (h : Successive (past ++ [e])) :
    Successive past := by
  rw [Successive, creations_snoc] at h
  exact (List.pairwise_append.mp h).1

theorem Job.Turns.inFlight {k : JobChange} {j j' : Job} (h : Turns k j j')
    (hf : j'.isInFlight) : k = .reset ∨ j.isInFlight := by
  have active {j : Job} (hs : j.status = .pending ∨ j.status = .processing) : j.isInFlight :=
    MemoryStore.isInFlight_of_isActive (MemoryStore.isActive_iff.mpr hs)
  cases h with
  | claimed _ _ _ hs => exact .inr (active (.inl hs))
  | completed | failed _ _ _ _ hs => exact .inr (active (.inr ‹_›))
  | reset => exact .inl rfl
  | requeued _ _ hd => exact .inr (MemoryStore.isInFlight_of_isDue hd)
  | reaped _ _ _ hs => exact .inr (active (.inr (Job.isStale_iff.mp hs).1))

namespace MemoryStore

variable {s : MemoryStore} {clock : Instant} {freshId : Uuid}

theorem exists_foldl_newer (jobs : List Job) (b : Job) : ∃ j, jobs.foldl newer (some b) = some j := by
  induction jobs generalizing b with
  | nil => exact ⟨b, rfl⟩
  | cons k jobs ih =>
    simp only [List.foldl_cons, newer]
    split <;> exact ih _

theorem exists_latest? {j : Job} (hj : j ∈ s.rows) : ∃ k, s.latest? j.fileId = some k := by
  have listed : j ∈ s.rows.filter (·.fileId = j.fileId) :=
    List.mem_filter.mpr ⟨hj, decide_eq_true rfl⟩
  obtain ⟨k, jobs, hl⟩ := List.exists_cons_of_ne_nil (List.ne_nil_of_mem listed)
  rw [latest?, hl]
  exact exists_foldl_newer jobs k

end MemoryStore

open MemoryStore

structure Live (s : Shared) (past : List Event) : Prop where
  distinct : s.store.Distinct
  dated : ∀ j ∈ s.store.rows, ∃ k ∈ creations past, k.id = j.id ∧ k.createdAt = j.createdAt
  newest : ∀ j ∈ s.store.rows, j.isInFlight → s.store.Newest j
  remembers : s.store.Remembers

namespace Live

variable {cfg : PipelineSettings} {s : Shared} {past : List Event} {o : Outside} {i : Nat}

theorem empty (queue : JobQueue) (clock : Instant) : Live ⟨.empty, queue, clock⟩ [] where
  distinct := distinct_empty
  dated _ hj := absurd hj List.not_mem_nil
  newest _ hj := absurd hj List.not_mem_nil
  remembers _ hj := absurd hj List.not_mem_nil

theorem apart (h : Live s past) (hs : Successive past) {a b : Job} (ha : a ∈ s.store.rows)
    (hb : b ∈ s.store.rows) (hab : a.createdAt = b.createdAt) : a.id = b.id := by
  obtain ⟨k, hk, hka, hkc⟩ := h.dated a ha
  obtain ⟨l, hl, hlb, hlc⟩ := h.dated b hb
  have symm : Std.Symm fun a b : Job => a.createdAt ≠ b.createdAt := ⟨fun _ _ hn => hn.symm⟩
  have differ := hs.imp (S := fun a b => a.createdAt ≠ b.createdAt) fun hlt he =>
    absurd (show _ < _ from he ▸ hlt) (Int.lt_irrefl _)
  -- Jobs with different identifiers have creations of their own.
  by_contra hne
  have different : k ≠ l := fun he => hne (hka.symm.trans (he ▸ hlb))
  exact differ.forall hk hl different (hkc.trans (hab.trans hlc.symm))

theorem latest?_of_newest (h : Live s past) (hs : Successive past) {j : Job}
    (hj : j ∈ s.store.rows) (hn : s.store.Newest j) : s.store.latest? j.fileId = some j := by
  obtain ⟨k, hk⟩ := exists_latest? hj
  obtain ⟨hkr, hkf, hkn⟩ := newest_of_latest? hk
  have same : k.createdAt = j.createdAt := Instant.le_antisymm (hn k hkr hkf) (hkn j hj hkf.symm)
  rw [hk, h.distinct.eq hkr hj (h.apart hs hkr hj same)]

theorem run (h : Live s past) {op : StoreOp} (hc : Conforms cfg s past (.store op))
    (hu : s.store.Unused o.freshId)
    (hop : ∀ fileId requestedBy maxAttempts, op ≠ .create fileId requestedBy maxAttempts) :
    Live (s.answer o (.store op)).2 (past ++ [⟨i, .store op, (s.answer o (.store op)).1⟩]) where
  distinct := h.distinct.run op
  dated a ha := by
    obtain ⟨r, hr, hid, -, hcreated, -⟩ := origin_of_mem_run h.distinct hop ha
    obtain ⟨k, hk, hkid, hkc⟩ := h.dated r hr
    refine ⟨k, ?_, hkid.trans hid, hkc.trans hcreated⟩
    rw [creations_snoc]
    exact List.mem_append_left _ hk
  newest a ha hf b hb hfile := by
    obtain ⟨r, hr, -, hrf, hrc, turned⟩ := origin_of_mem_run h.distinct hop ha
    obtain ⟨q, hq, -, hqf, hqc, -⟩ := origin_of_mem_run h.distinct hop hb
    rw [← hrc, ← hqc]
    have newest : s.store.Newest r := by
      rcases turned with rfl | ⟨k, hk, ht⟩
      · exact h.newest a hr hf
      · rcases ht.inFlight hf with rfl | hrf
        -- A job that has been put in flight has been reset, and was the latest of its file.
        · obtain rfl := eq_reset_of_mem_changes hk
          obtain ⟨fileId, j, hl, hj⟩ := hc
          obtain ⟨hjr, -, hn⟩ := newest_of_latest? hl
          exact h.distinct.eq hjr hr hj ▸ hn
        · exact h.newest r hr hrf
    exact newest q hq (hqf.trans (hfile.trans hrf.symm))
  remembers := by
    by_cases hf : op.change? = some .failed
    · cases op with
      | recordFailure id error next =>
        obtain ⟨job, hrow, -, hset⟩ := hc
        refine (remembers_recordFailure_iff h.distinct h.remembers).mpr fun j hj _ => ?_
        obtain rfl := Option.some.inj (hrow.symm.trans hj)
        exact hset.isSome_iff
      | _ => cases hf
    · exact remembers_run h.distinct hu h.remembers hf

theorem other (h : Live s past) {t : Shared} {e : Event} (ht : t.store = s.store)
    (he : e.call.created? e.reply = none) : Live t (past ++ [e]) := by
  have same : creations (past ++ [e]) = creations past := by
    rw [creations_snoc, he, Option.toList_none, List.append_nil]
  exact ⟨ht ▸ h.distinct, ht ▸ same.symm ▸ h.dated, ht ▸ h.newest, ht ▸ h.remembers⟩

theorem put (h : Live s past) {t : Shared} {j : Job} {e : Event} (ht : t.store = s.store.put j)
    (he : e.call.created? e.reply = some j) (hs : Successive (past ++ [e]))
    (hu : s.store.Unused j.id) (hfree : ∀ r ∈ s.store.rows, r.fileId = j.fileId → ¬ r.isInFlight)
    (hj : j.Remembered) : Live t (past ++ [e]) := by
  have made : creations (past ++ [e]) = creations past ++ [j] := by
    rw [creations_snoc, he, Option.toList_some]
  have later : ∀ r ∈ s.store.rows, r.createdAt ≤ j.createdAt := by
    intro r hr
    obtain ⟨k, hk, -, hkr⟩ := h.dated r hr
    rw [Successive, made] at hs
    have lt := (List.pairwise_append.mp hs).2.2 k hk j (List.mem_singleton_self j)
    exact hkr ▸ Int.le_of_lt lt
  have rows {a : Job} : a ∈ t.store.rows ↔ a ∈ s.store.rows ∨ a = j :=
    ht ▸ mem_put_of_unused hu
  refine ⟨ht ▸ h.distinct.put, fun a ha => ?_, fun a ha hf b hb hfile => ?_, fun a ha => ?_⟩
  · rw [made]
    rcases rows.mp ha with ha | rfl
    · obtain ⟨k, hk, hka⟩ := h.dated a ha
      exact ⟨k, List.mem_append_left _ hk, hka⟩
    · exact ⟨a, List.mem_append_right _ (List.mem_singleton_self a), rfl, rfl⟩
  -- A job that was in flight before is of another file than the new one, which is the last.
  · rcases rows.mp ha with ha | rfl <;> rcases rows.mp hb with hb | rfl
    · exact h.newest a ha hf b hb hfile
    · exact absurd hf (hfree a ha hfile.symm)
    · exact later b hb
    · exact Int.le_refl _
  · rcases rows.mp ha with ha | rfl
    · exact h.remembers a ha
    · exact hj

theorem create (h : Live s past) (hu : s.store.Unused o.freshId) (fileId : Uuid)
    (requestedBy : Option String) (maxAttempts : Int32)
    (hs : Successive (past ++ [⟨i, .store (.create fileId requestedBy maxAttempts),
      (s.answer o (.store (.create fileId requestedBy maxAttempts))).1⟩])) :
    Live (s.answer o (.store (.create fileId requestedBy maxAttempts))).2
      (past ++ [⟨i, .store (.create fileId requestedBy maxAttempts),
        (s.answer o (.store (.create fileId requestedBy maxAttempts))).1⟩]) := by
  rcases s.store.create_cases o.time o.freshId fileId requestedBy maxAttempts with
    ⟨j, -, he⟩ | ⟨hfree, he⟩
  · rw [Shared.answer_store_eq (.create fileId requestedBy maxAttempts) he]
    exact h.other rfl rfl
  · rw [Shared.answer_store_eq (.create fileId requestedBy maxAttempts) he] at hs ⊢
    exact h.put rfl rfl hs hu (inFlight?_eq_none_iff.mp hfree) fun hf => nomatch hf

theorem answer (h : Live s past) {c : ServiceCall} (hc : Conforms cfg s past c)
    (hu : s.store.Unused o.freshId)
    (hs : Successive (past ++ [⟨i, c, (s.answer o c).1⟩])) :
    Live (s.answer o c).2 (past ++ [⟨i, c, (s.answer o c).1⟩]) := by
  cases c with
  | store op =>
    by_cases hop : ∃ fileId requestedBy maxAttempts, op = .create fileId requestedBy maxAttempts
    · obtain ⟨fileId, requestedBy, maxAttempts, rfl⟩ := hop
      exact h.create hu fileId requestedBy maxAttempts hs
    · exact h.run hc hu fun _ _ _ he => hop ⟨_, _, _, he⟩
  | _ => exact h.other rfl rfl

theorem withQueue (h : Live s past) (queue : JobQueue) : Live { s with queue } past :=
  ⟨h.distinct, h.dated, h.newest, h.remembers⟩

theorem perm (h : Live s past) {rows : List Job} (hp : s.store.rows.Perm rows) :
    Live { s with store := ⟨rows⟩ } past where
  distinct := h.distinct.perm hp
  dated j hj := h.dated j (hp.mem_iff.mpr hj)
  newest j hj hf k hk := h.newest j (hp.mem_iff.mpr hj) hf k (hp.mem_iff.mpr hk)
  remembers := h.remembers.perm hp

theorem ended (h : Live s past) {j : Job} (hj : j ∈ s.store.rows) (hf : ¬ j.isInFlight) :
    j.status = .completed ∨ j.isExhausted ∧ j.nextRetryAt = none := by
  rw [isInFlight_iff, not_or, isActive_iff, isAwaitingRetry_iff] at hf
  obtain ⟨idle, settled⟩ := hf
  cases hs : j.status with
  | pending => exact absurd (.inl hs) idle
  | processing => exact absurd (.inr hs) idle
  | completed => exact .inl rfl
  | failed =>
    have comes := h.remembers j hj hs
    have spent : ¬ j.hasAttemptsLeft := fun ha => settled ⟨hs, ha, comes.mp ha⟩
    refine .inr ⟨by simp [Job.isExhausted, hs, spent], ?_⟩
    exact Option.not_isSome_iff_eq_none.mp fun hn => spent (comes.mpr hn)

end Live

namespace Previews

def ResetsLatest (store : MemoryStore) (fileId : Uuid) (_ : Shared) (_ : List Event)
    (c : ServiceCall) : Prop :=
  ∀ op, c = .store op → op.change? = none ∨ ∃ j, store.latest? fileId = some j ∧ op = .reset j.id

def Spares (store : MemoryStore) (fileId : Uuid) (s : Shared) (_ : List Event) : Prop :=
  s.store.Distinct ∧ ∀ id, (∀ j, store.latest? fileId = some j → j.id ≠ id) →
    s.store.get? id = store.get? id

variable {store : MemoryStore} {fileId : Uuid} {s : Shared} {past : List Event} {o : Outside}

theorem Spares.answer (h : Spares store fileId s past) {c : ServiceCall} (i : Nat)
    (hc : ResetsLatest store fileId s past c) (hu : s.store.Unused o.freshId) :
    Spares store fileId (s.answer o c).2 (past ++ [⟨i, c, (s.answer o c).1⟩]) := by
  refine ⟨Shared.answer_distinct h.1 c, fun id hid => ?_⟩
  rw [← h.2 id hid]
  refine (Shared.answer_row h.1 hu c id).eq_of_unchanged fun k hk => ?_
  cases c with
  | store op =>
    rcases hc op rfl with hn | ⟨j, hj, rfl⟩
    · exact nomatch hn.symm.trans (StoreOp.change?_of_mem_changes hk)
    · have turn : (StoreOp.reset j.id).change? = some k := StoreOp.change?_of_mem_changes hk
      obtain rfl := Option.some.inj turn
      exact hid j hj (StoreOp.reset.inj (eq_reset_of_mem_changes hk))
  | _ => exact absurd hk List.not_mem_nil

theorem keeps_spares : CallRule.Keeps (ResetsLatest store fileId) (Spares store fileId) where
  answer i h hc hu := h.answer i hc hu
  queue _ h := h
  reorder hp h := ⟨h.1.perm hp, fun id hid => (get?_perm h.1 hp id).trans (h.2 id hid)⟩

theorem respects_retry_resetsLatest (i : Nat) (s : Shared) (past : List Event) (fileId : Uuid) :
    (retry fileId).Respects (ResetsLatest s.store fileId) (fun _ _ => True) i s past := by
  have reading {op : StoreOp} (hop : op.change? = none) {t : Shared} {q : List Event} :
      ResetsLatest s.store fileId t q (.store op) := by
    rintro _ ⟨⟩
    exact .inl hop
  refine ⟨reading rfl, fun o _ => ?_⟩
  rw [Shared.answer_store_eq (.latest fileId) rfl]
  cases hl : s.store.latest? fileId with
  | none => trivial
  | some latest =>
    dsimp only
    split
    · refine .of_any_reply ?_ fun o _ r => ?_
      · rintro _ ⟨⟩
        exact .inr ⟨latest, hl, rfl⟩
      rcases r with _ | _ | job
      · trivial
      · refine .of_any_reply (reading rfl) fun o _ r => ?_
        rcases r with _ | _ | job <;> trivial
      · refine .of_any_reply (fun _ ho => nomatch ho) fun o _ r => ?_
        cases r with
        | full => exact ⟨fun _ ho => (nomatch ho), fun _ _ => trivial⟩
        | admitted | alreadyQueued | closed => trivial
    · trivial

end Previews

theorem Live.not_slotTaken {s : Shared} {past : List Event} (h : Live s past) (hs : Successive past)
    {fileId : Uuid} {j : Job} (hj : s.store.latest? fileId = some j) :
    ¬ s.store.slotTaken j.fileId j.id := by
  obtain ⟨hjr, -, hn⟩ := newest_of_latest? hj
  intro taken
  obtain ⟨r, hr, hne, hfile, ha⟩ := slotTaken_iff.mp taken
  have newest := h.newest r hr (isInFlight_of_isActive ha)
  exact hne (h.apart hs hr hjr (Instant.le_antisymm (hn r hr hfile) (newest j hjr hfile.symm)))

theorem Previews.run_offer (s : Shared) (o : ServiceCall → Outside) (job : Job) (created : Bool) :
    ∃ full, ((offer job created).run (fun c s => s.answer (o c) c) s).1 =
      some (.ok ⟨job, created, full⟩) := by
  simp only [offer, Program.run, Shared.answer]
  cases (s.queue.tryAdmit job.id).1 <;> exact ⟨_, rfl⟩

theorem Live.run_retry {s : Shared} {past : List Event} (h : Live s past) (hs : Successive past)
    {fileId : Uuid} {j : Job} (hj : s.store.latest? fileId = some j) (hf : j.status = .failed)
    (o : ServiceCall → Outside) :
    ∃ full, ((Previews.retry fileId).run (fun c s => s.answer (o c) c) s).1 =
      some (.ok ⟨j.restarted (o (.store (.reset j.id))).time, false, full⟩) := by
  have row := get?_self h.distinct (newest_of_latest? hj).1
  have reset (clock : Instant) (freshId : Uuid) : s.store.run clock freshId (.reset j.id) =
      (some (j.restarted clock), s.store.changeRow j.id (·.restarted clock)) := by
    rcases s.store.reset_cases clock j.id with ⟨hn, -⟩ | ⟨k, hk, -, -, he⟩
    · rcases hn j row with taken | hne
      · exact absurd taken (h.not_slotTaken hs hj)
      · exact absurd hf hne
    · obtain rfl := Option.some.inj (row.symm.trans hk)
      exact he
  have latest (clock : Instant) (freshId : Uuid) :
      s.store.run clock freshId (.latest fileId) = (some j, s.store) := congrArg (·, s.store) hj
  have looked (o : Outside) := Shared.answer_store_eq (o := o) (.latest fileId) (latest _ _)
  have answered (clock : Instant) (o : Outside) :=
    Shared.answer_store_eq (s := { s with clock }) (o := o) (.reset j.id) (reset _ _)
  simp only [Previews.retry, Previews.reset, Program.run, looked, hf, if_true, answered]
  exact Previews.run_offer _ o _ false

namespace System

structure Unanimous (s : System) : Prop where
  live : ∀ j ∈ s.store.rows, j.isInFlight → s.store.latest? j.fileId = some j
  older : ∀ j ∈ s.store.rows, s.store.latest? j.fileId ≠ some j →
    j.status = .completed ∨ j.isExhausted ∧ j.nextRetryAt = none
  reported : ∀ maxAttempts fileId requestedBy os out,
    Successive (s.turn (.perform (.enqueue maxAttempts fileId requestedBy) os)).past →
    (s.turn (.perform (.enqueue maxAttempts fileId requestedBy) os)).strands.getLast? =
      some ⟨.enqueue maxAttempts fileId requestedBy, .done (.ok out)⟩ →
    ∀ o, ((Previews.status fileId).run (fun c s => s.answer o c)
      (s.turn (.perform (.enqueue maxAttempts fileId requestedBy) os)).shared).1 =
        some (.ok (some out.job))
  reset : ∀ fileId os id, (∀ j, s.store.latest? fileId = some j → j.id ≠ id) →
    (s.turn (.perform (.retry fileId) os)).store.get? id = s.store.get? id
  restarted : ∀ fileId j, s.store.latest? fileId = some j → j.status = .failed →
    ∀ o : ServiceCall → Outside, ∃ full,
      ((Previews.retry fileId).run (fun c s => s.answer (o c) c) s.shared).1 =
        some (.ok ⟨j.restarted (o (.store (.reset j.id))).time, false, full⟩)

def ConformsToSome : CallRule :=
  fun s past c => ∃ cfg, Conforms cfg s past c

theorem keeps_live : ConformsToSome.Keeps fun s past =>
    s.store.Distinct ∧ (Successive past → Live s past) where
  answer _ h hc hu :=
    have ⟨_, hc⟩ := hc
    ⟨Shared.answer_distinct h.1 _, fun hs => (h.2 hs.init).answer hc hu hs⟩
  queue queue h := ⟨h.1, fun hs => (h.2 hs).withQueue queue⟩
  reorder hp h := ⟨h.1.perm hp, fun hs => (h.2 hs).perm hp⟩

theorem respects_conformsToSome (a : Activity) (i : Nat) (s : Shared) (past : List Event)
    (h : s.store.Distinct) : a.program.Respects ConformsToSome (fun _ _ => True) i s past :=
  have ⟨cfg, ha⟩ := a.exists_fits
  (ha.respects h).imp (fun _ _ _ hc => ⟨cfg, hc⟩) fun _ _ _ => trivial

theorem turns_live (queue : JobQueue) (clock : Instant) (ts : List Turn) :
    ((idle ⟨.empty, queue, clock⟩).turns ts).store.Distinct ∧
      (Successive ((idle ⟨.empty, queue, clock⟩).turns ts).past →
        Live ((idle ⟨.empty, queue, clock⟩).turns ts).shared
          ((idle ⟨.empty, queue, clock⟩).turns ts).past) :=
  turns_invariant keeps_live ⟨distinct_empty, fun _ => .empty queue clock⟩
    fun _ _ a _ i s past h => respects_conformsToSome a i s past h.1

theorem status_run {s : Shared} {fileId : Uuid} {j : Job} (h : s.store.latest? fileId = some j)
    (o : Outside) : ((Previews.status fileId).run (fun c s => s.answer o c) s).1 =
      some (.ok (some j)) := by
  have latest : s.store.run o.time o.freshId (.latest fileId) = (some j, s.store) :=
    congrArg (·, s.store) h
  simp only [Previews.status, Program.run, Shared.answer_store_eq _ latest]

theorem turn_enqueue {s : System} (hd : s.store.Distinct)
    (hl : Successive s.past → Live s.shared s.past) {maxAttempts : Int32} {fileId : Uuid}
    {requestedBy : Option String} {os : List Outside} {out : EnqueueOutcome}
    (hs : Successive (s.turn (.perform (.enqueue maxAttempts fileId requestedBy) os)).past)
    (hout : (s.turn (.perform (.enqueue maxAttempts fileId requestedBy) os)).strands.getLast? =
      some ⟨.enqueue maxAttempts fileId requestedBy, .done (.ok out)⟩) :
    (s.turn (.perform (.enqueue maxAttempts fileId requestedBy) os)).store.latest? fileId =
      some out.job := by
  obtain ⟨cfg, hm⟩ := (Activity.enqueue maxAttempts fileId requestedBy).exists_fits
  have respects : (Previews.enqueue maxAttempts fileId requestedBy).Respects (Conforms cfg)
      (Previews.Offers fileId) s.strands.length s.shared s.past :=
    Previews.respects_enqueue hm fileId requestedBy
  obtain ⟨p, hstrands, hp, -, live⟩ := turn_perform keeps_live
    (a := .enqueue maxAttempts fileId requestedBy) ⟨hd, hl⟩
    (respects.imp (fun _ _ _ hc => ⟨cfg, hc⟩) fun _ _ h => h) os
  rw [hstrands, List.getLast?_concat] at hout
  obtain rfl := eq_of_heq (Strand.mk.inj (Option.some.inj hout)).2
  obtain ⟨hj, rfl, hf⟩ := hp out rfl
  exact (live hs).latest?_of_newest hs hj ((live hs).newest _ hj hf)

theorem live_job_is_seen (queue : JobQueue) (clock : Instant) (ts : List Turn)
    (hs : Successive ((idle ⟨.empty, queue, clock⟩).turns ts).past) :
    ((idle ⟨.empty, queue, clock⟩).turns ts).Unanimous := by
  obtain ⟨distinct, live⟩ := turns_live queue clock ts
  generalize (idle ⟨.empty, queue, clock⟩).turns ts = s at hs distinct live ⊢
  have seen : ∀ j ∈ s.store.rows, j.isInFlight → s.store.latest? j.fileId = some j :=
    fun j hj hf => (live hs).latest?_of_newest hs hj ((live hs).newest j hj hf)
  refine ⟨seen, fun j hj hn => (live hs).ended hj fun hf => hn (seen j hj hf), ?_, ?_, ?_⟩
  · intro maxAttempts fileId requestedBy os out hs' hout o
    exact status_run (turn_enqueue distinct live hs' hout) o
  · intro fileId os id hid
    obtain ⟨-, -, -, -, spared⟩ := turn_perform (a := .retry fileId) Previews.keeps_spares
      ⟨distinct, fun _ _ => rfl⟩
      (Previews.respects_retry_resetsLatest s.strands.length s.shared s.past fileId) os
    exact spared id hid
  · exact fun fileId j hj hf o => (live hs).run_retry hs hj hf o

def secondJob : List Turn :=
  [.perform (.enqueue 1 (.ofNat 9) none) (slowAnswers 2 0 1 ++ slowAnswers 2 0 2),
    .deliver ⟨.default, .ofSeconds 120⟩ (slowAnswers 8 1 2),
    .perform (.enqueue 3 (.ofNat 9) none) (slowAnswers 2 10 2 ++ slowAnswers 2 10 3),
    .deliver ⟨.default, .ofSeconds 120⟩ (slowAnswers 2 11 3)]

theorem successive_secondJob :
    Successive ((idle ⟨.empty, ⟨4, [], []⟩, .epoch⟩).turns secondJob).past := by
  unfold Successive
  decide +kernel

theorem live_job_is_seen_secondJob :
    Successive ((idle ⟨.empty, ⟨4, [], []⟩, .epoch⟩).turns secondJob).past ∧
      ((idle ⟨.empty, ⟨4, [], []⟩, .epoch⟩).turns secondJob).store.rows.map
        (fun j => (j.id, j.status, j.isInFlight)) =
          [(.ofNat 1, .failed, false), (.ofNat 2, .processing, true)] ∧
      ((idle ⟨.empty, ⟨4, [], []⟩, .epoch⟩).turns secondJob).Unanimous :=
  ⟨successive_secondJob, by decide +kernel, live_job_is_seen _ _ _ successive_secondJob⟩

end System

end DocumentPreview
