import WlanxVms.Bcaster.Tables

/-!
# Clients that have disconnected

`lisa_recv_part2` notes the end of a stream in `client_state` alone: the descriptor stays in `client_fds`
(`ended_mem_table`), where `select` goes on to report it and `lisa_cast` goes on to send to it. `Watched` is
the system with the descriptors whose stream has ended, and with those among them that were picked by
`lisa_recv_part1` or sent to by `lisa_cast` afterwards.
-/

namespace WlanxVms
namespace Bcaster

structure Watched where
  sys : Sys
  ended : List Int
  used : List Int

namespace Watched

def init (lp : Lisa) : Watched := ⟨Sys.init lp, [], []⟩

/-- The descriptors whose stream has ended after a step; `accept` may hand one out anew. -/
def noteEnded (w : Watched) : Act → List Int
  | .receiver (.part2 rc _) => match w.sys.receiver with
    | .found .. => if rc = 0 then w.sys.lp.thisFd :: w.ended else w.ended
    | _ => w.ended
  | .listener (.acceptPost (.accepts fd)) => w.ended.filter (· ≠ fd)
  | _ => w.ended

/-- The descriptor that `lisa_recv_part1` returns, or that `lisa_send` sends to. -/
def uses (s : Sys) : Act → List Int
  | .receiver (.part1Post (some ready)) => match s.receiver with
    | .selecting _ thisFd => [(s.lp.recvPart1Post thisFd (some ready)).2]
    | _ => []
  | .receiver .sendPre => match s.receiver with
    | .target _ => (s.lp.sendPre.map SendCall.thisSocket).toList
    | _ => []
  | _ => []

def step (w : Watched) (a : Act) : Option Watched :=
  (w.sys.step a).map fun t =>
    { sys := t, ended := w.noteEnded a, used := w.used ++ (uses w.sys a).filter (· ∈ w.ended) }

/-- When `select` reports an ended stream, it also reports a client before it in `client_fds` whose stream
has not ended; and when a packet is cast, no ended stream but that of `last_client` is in `client_fds`. -/
def Spared (w : Watched) : Act → Prop
  | .receiver (.part1Post (some ready)) => ∀ f ∈ w.ended, f ∈ ready →
      ∃ g ∈ ready, g ∉ w.ended ∧ w.sys.lp.table.idxOf g < w.sys.lp.table.idxOf f
  | .receiver .castStart => ∀ f ∈ w.ended, f ∈ w.sys.lp.table → f = w.sys.lp.clientFd
  | _ => True

instance (w : Watched) (a : Act) : Decidable (Spared w a) := by
  unfold Spared; split <;> infer_instance

end Watched

/-- The call of `lisa_cast` has no ended stream to send to. -/
def Casting.Spared (ended table : List Int) (k : Casting) : Prop := ∀ f ∈ ended, f ∈ table → f = k.lastClient

/-- The target of a call of `lisa_cast` is not an ended stream. -/
def ReceiverPc.Avoids (ended table : List Int) (clientFd : Int) : ReceiverPc → Prop
  | .target k => clientFd ∉ ended ∧ k.Spared ended table
  | .sending k _ => k.Spared ended table
  | .sent k => k.Spared ended table
  | _ => True

namespace Watched
variable {w w' : Watched} {t : Sys} {ended table : List Int} {k : Casting}

theorem not_mem_of_castFind (h : k.Spared ended t.lp.table) {j : Nat}
    (hj : t.lp.castFind k.lastClient k.i = some j) : t.lp.clientFds j ∉ ended := by
  obtain ⟨hget, hne, -, -⟩ := Lisa.castFind_eq_some hj
  intro hmem
  exact hne (h _ hmem (List.mem_of_getElem? hget))

theorem avoids_castSeek (h : k.Spared ended t.lp.table) :
    (t.castSeek k).receiver.Avoids ended (t.castSeek k).lp.table (t.castSeek k).lp.clientFd := by
  rcases Sys.castSeek_cases t k with ⟨j, hj, he⟩ | ⟨-, he⟩
  · rw [he]
    exact ⟨not_mem_of_castFind h hj, h⟩
  · rw [he]
    trivial

theorem mem_of_mem_noteEnded {a : ListenerAct} {f : Int} (hf : f ∈ w.noteEnded (.listener a)) : f ∈ w.ended := by
  unfold noteEnded at hf
  split at hf
  · next h => cases h
  · exact (List.mem_filter.1 hf).1
  · exact hf

/-- The invariant of the runs that meet `Spared`. -/
structure Inv (w : Watched) : Prop extends w.sys.OnVsock where
  avoids : w.sys.receiver.Avoids w.ended w.sys.lp.table w.sys.lp.clientFd
  used : w.used = []

theorem Inv.avoids_listener {a : ListenerAct} (h : w.Inv) (hs : w.sys.stepListener a = some t) :
    t.receiver.Avoids (w.noteEnded (.listener a)) t.lp.table t.lp.clientFd := by
  have havoids := h.avoids
  have hspared : ∀ k : Casting, k.Spared w.ended w.sys.lp.table →
      k.Spared (w.noteEnded (.listener a)) t.lp.table := by
    intro k hk f hf hmem
    rcases Sys.table_listener h.toServed hs with ⟨htable, -, -⟩ | ⟨rc, rfl, -, -, htable, -, -⟩
    · rw [htable] at hmem
      exact hk f (mem_of_mem_noteEnded hf) hmem
    · rw [htable] at hmem
      rcases List.mem_append.1 hmem with hmem | hmem
      · exact hk f (mem_of_mem_noteEnded hf) hmem
      · have hne : f ≠ rc := by simpa using (List.mem_filter.1 hf).2
        exact absurd (List.mem_singleton.1 hmem) hne
  rw [(Sys.listener_frame hs).receiver]
  cases hpc : w.sys.receiver with
  | target k =>
    rw [hpc] at havoids
    refine ⟨?_, hspared k havoids.2⟩
    rcases Sys.clientFd_listener hs with hsame | ⟨rc, rfl, hrc⟩
    · rw [hsame]
      intro hmem
      exact havoids.1 (mem_of_mem_noteEnded hmem)
    · rw [hrc]
      intro hmem
      simpa using (List.mem_filter.1 hmem).2
  | sending k c => rw [hpc] at havoids; exact hspared k havoids
  | sent k => rw [hpc] at havoids; exact hspared k havoids
  | _ => trivial

theorem Inv.avoids_receiver {a : ReceiverAct} (h : w.Inv) (hG : Spared w (.receiver a))
    (hs : w.sys.stepReceiver a = some t) :
    t.receiver.Avoids (w.noteEnded (.receiver a)) t.lp.table t.lp.clientFd := by
  have havoids := h.avoids
  cases a with
  | readCount =>
    obtain ⟨-, rfl⟩ := Sys.readCount_cases hs
    show (if w.sys.buffers.numClients = 0 then ReceiverPc.idle else .part1).Avoids _ _ _
    split <;> trivial
  | part1Pre =>
    obtain ⟨-, ⟨rc, -, rfl⟩ | ⟨fds, thisFd, -, rfl⟩⟩ := Sys.part1Pre_cases hs
    · show (if rc < 0 then ReceiverPc.idle else .picked rc false).Avoids _ _ _
      split <;> trivial
    · trivial
  | part1Post ready =>
    obtain ⟨fds, thisFd, -, -, rfl⟩ := Sys.part1Post_cases hs
    show (if (w.sys.lp.recvPart1Post thisFd ready).2 < 0 then ReceiverPc.idle else .picked _ true).Avoids _ _ _
    split <;> trivial
  | clientForFd => obtain ⟨clfd, locked, -, ⟨clnum, -, rfl⟩ | ⟨-, rfl⟩⟩ := Sys.clientForFd_cases hs <;> trivial
  | part2 rc bs => obtain ⟨clfd, clnum, locked, -, -, rfl⟩ := Sys.part2_cases hs; trivial
  | loop =>
    obtain ⟨clfd, clnum, hr, ⟨-, -, rfl⟩ | ⟨-, -, rfl⟩ | ⟨-, rfl⟩⟩ := Sys.loop_cases hs
    · trivial
    · rw [hr]; trivial
    · trivial
  | castStart =>
    obtain ⟨clfd, clnum, -, rfl⟩ := Sys.castStart_cases hs
    exact avoids_castSeek hG
  | sendPre =>
    obtain ⟨k, hr, hpre⟩ := Sys.sendPre_cases hs
    rw [hr] at havoids
    obtain ⟨-, rfl⟩ | ⟨c, -, rfl⟩ := hpre
    · exact havoids.2
    · exact havoids.2
  | send outs =>
    obtain ⟨k, c, r, hr, -, rfl⟩ := Sys.send_cases hs
    rw [hr] at havoids
    have htable := (Lisa.SameTable.sendPost w.sys.lp r.thisState).table
    intro f hf hmem
    exact havoids f hf (htable ▸ hmem)
  | castNext =>
    obtain ⟨k, hr, rfl⟩ := Sys.castNext_cases hs
    rw [hr] at havoids
    exact avoids_castSeek (k := { k with i := k.i + 1 }) havoids

theorem Inv.uses_not_ended {a : Act} (h : w.Inv) (hG : Spared w a) (hs : w.sys.step a = some t) :
    ∀ f ∈ uses w.sys a, f ∉ w.ended := by
  have havoids := h.avoids
  intro f hf hended
  unfold uses at hf
  split at hf
  · next ready =>
    split at hf
    · next fds thisFd hr =>
      obtain ⟨fds', thisFd', fd, hr', hfind, hret⟩ := h.toOnVsock.part1Post hs
      rw [hr] at hr'
      cases hr'
      rw [List.mem_singleton.1 hf, hret] at hended
      have hfd : fd ∈ ready := by simpa using List.find?_some hfind
      obtain ⟨g, hg, -, hlt⟩ := hG fd hended hfd
      -- a ready descriptor before the first one
      obtain ⟨-, as, bs, htable, hbefore⟩ := List.find?_eq_some_iff_append.1 hfind
      have hfd_notin : fd ∉ as := fun hmem => by simpa [hfd] using hbefore fd hmem
      have hidx : w.sys.lp.table.idxOf fd = as.length := by
        rw [htable, List.idxOf_append_of_notMem hfd_notin, List.idxOf_cons_self, Nat.add_zero]
      have hgas : g ∈ as := by
        by_contra hnot
        rw [hidx, htable, List.idxOf_append_of_notMem hnot] at hlt
        omega
      simpa [hg] using hbefore g hgas
    · cases hf
  · split at hf
    · next k hr =>
      have hsvr := (h.server (h.busy (by simp [hr]))).1
      rw [hr] at havoids
      obtain ⟨c, hc, rfl⟩ := Option.map_eq_some_iff.1 (Option.mem_toList.1 hf)
      rw [Lisa.sendPre_socket (by simp [hsvr]) hc] at hended
      exact havoids.1 hended
    · cases hf
  · cases hf

theorem Inv.step {a : Act} (h : w.Inv) (hG : Spared w a) (hs : w.step a = some w') : w'.Inv := by
  obtain ⟨t, ht, rfl⟩ := Option.map_eq_some_iff.1 hs
  have hnone : (uses w.sys a).filter (· ∈ w.ended) = [] :=
    List.filter_eq_nil_iff.2 fun f hf => by simpa using h.uses_not_ended hG ht f hf
  refine ⟨h.toOnVsock.step ht, ?_, ?_⟩
  · cases a with
    | listener a => exact h.avoids_listener ht
    | receiver a => exact h.avoids_receiver hG ht
  · show w.used ++ (uses w.sys a).filter (· ∈ w.ended) = []
    rw [hnone, h.used, List.append_nil]

theorem inv_initListener : (init initListener).Inv := ⟨onVsock_initListener, trivial, rfl⟩

/-! ### Nothing is forgotten -/

/-- The ended streams stay in the table. -/
structure Kept (w : Watched) : Prop extends w.sys.OnVsock where
  thisFd : w.sys.lp.thisFd = 0 ∨ w.sys.lp.thisFd ∈ w.sys.lp.table
  ended : ∀ f ∈ w.ended, f ∈ w.sys.lp.table

theorem thisFd_castSeek (t : Sys) (k : Casting) : (t.castSeek k).lp.thisFd = t.lp.thisFd := by
  rcases Sys.castSeek_cases t k with ⟨j, -, he⟩ | ⟨-, he⟩ <;> rw [he]

theorem Kept.thisFd_receiver {a : ReceiverAct} (h : w.Kept) (hs : w.sys.stepReceiver a = some t) :
    t.lp.thisFd = w.sys.lp.thisFd ∨ t.lp.thisFd ∈ w.sys.lp.table := by
  cases a with
  | readCount => obtain ⟨-, rfl⟩ := Sys.readCount_cases hs; exact .inl rfl
  | part1Pre => obtain ⟨-, ⟨rc, -, rfl⟩ | ⟨fds, thisFd, -, rfl⟩⟩ := Sys.part1Pre_cases hs <;> exact .inl rfl
  | part1Post ready =>
    cases ready with
    | none => obtain ⟨fds, thisFd, -, -, rfl⟩ := Sys.part1Post_cases hs; exact .inl rfl
    | some ready =>
      obtain ⟨fds, thisFd, fd, hr, hfind, hpost⟩ := h.toOnVsock.part1Post hs
      obtain ⟨fds', thisFd', hr', -, rfl⟩ := Sys.part1Post_cases hs
      rw [hr] at hr'
      cases hr'
      right
      show (w.sys.lp.recvPart1Post thisFd (some ready)).1.thisFd ∈ _
      rw [hpost]
      exact List.mem_of_find?_eq_some hfind
  | clientForFd =>
    obtain ⟨clfd, locked, -, ⟨clnum, -, rfl⟩ | ⟨-, rfl⟩⟩ := Sys.clientForFd_cases hs <;> exact .inl rfl
  | part2 rc bs =>
    obtain ⟨clfd, clnum, locked, -, -, rfl⟩ := Sys.part2_cases hs
    exact .inl (Lisa.thisFd_recvPart2 ..)
  | loop =>
    obtain ⟨clfd, clnum, -, ⟨-, -, rfl⟩ | ⟨-, -, rfl⟩ | ⟨-, rfl⟩⟩ := Sys.loop_cases hs <;> exact .inl rfl
  | castStart => obtain ⟨clfd, clnum, -, rfl⟩ := Sys.castStart_cases hs; exact .inl (thisFd_castSeek ..)
  | sendPre => obtain ⟨k, -, ⟨-, rfl⟩ | ⟨c, -, rfl⟩⟩ := Sys.sendPre_cases hs <;> exact .inl rfl
  | send outs =>
    obtain ⟨k, c, r, -, -, rfl⟩ := Sys.send_cases hs
    exact .inl (Lisa.thisFd_sendPost ..)
  | castNext => obtain ⟨k, -, rfl⟩ := Sys.castNext_cases hs; exact .inl (thisFd_castSeek ..)

/-- A stream that ends is that of `l->this_fd`, which is a client unless nothing was received yet. -/
theorem Kept.noteEnded_receiver {a : ReceiverAct} (h : w.Kept) (hs : w.sys.stepReceiver a = some t) :
    ∀ f ∈ w.noteEnded (.receiver a), f ∈ w.sys.lp.table := by
  intro f hf
  unfold noteEnded at hf
  split at hf
  · next rc bs ha =>
    cases ha
    obtain ⟨clfd, clnum, locked, hr, hrc, -⟩ := Sys.part2_cases hs
    rw [hr] at hf
    by_cases hz : rc = 0
    · rw [if_pos hz] at hf
      rcases List.mem_cons.1 hf with rfl | hf
      · have hne : w.sys.lp.thisFd ≠ 0 := by
          rcases hrc with ⟨hneg, -⟩ | ⟨-, -, hne⟩
          · omega
          · exact hne
        exact h.thisFd.resolve_left hne
      · exact h.ended f hf
    · rw [if_neg hz] at hf
      exact h.ended f hf
  · next ha => cases ha
  · exact h.ended f hf

theorem Kept.step {a : Act} (h : w.Kept) (hs : w.step a = some w') : w'.Kept := by
  obtain ⟨t, ht, rfl⟩ := Option.map_eq_some_iff.1 hs
  have hvsock := h.toOnVsock.step ht
  cases a with
  | listener a =>
    have hgrows := (Sys.table_grows h.toServed ht).subset
    refine ⟨hvsock, ?_, fun f hf => hgrows (h.ended f (mem_of_mem_noteEnded hf))⟩
    rw [Sys.thisFd_listener ht]
    exact h.thisFd.imp_right fun hmem => hgrows hmem
  | receiver a =>
    have htable := (Sys.receiver_frame ht).lp.table
    refine ⟨hvsock, ?_, fun f hf => htable ▸ h.noteEnded_receiver ht f hf⟩
    rw [htable]
    rcases h.thisFd_receiver ht with hsame | hmem
    · rw [hsame]; exact h.thisFd
    · exact .inr hmem

/-- Whatever happens after the end of its stream, a descriptor stays in `client_fds`. -/
theorem ended_mem_table {acts : List Act} (h : Path step AnyStep (init initListener) acts w) :
    ∀ f ∈ w.ended, f ∈ w.sys.lp.table :=
  (h.invariant Kept (fun _ _ _ hi _ hs => hi.step hs) ⟨onVsock_initListener, .inl rfl, nofun⟩).ended

end Watched

/-- No ended stream is picked or sent to, in the runs in which each answer of `select` with an ended stream
has another client before it in the table, and no packet is cast while the table has an ended stream beside
the client that the packet is from. -/
theorem ended_unused (acts : List Act) (w : Watched)
    (h : Path Watched.step Watched.Spared (Watched.init initListener) acts w) : w.used = [] :=
  (h.invariant Watched.Inv (fun _ _ _ hi hG hs => hi.step hG hs) Watched.inv_initListener).used

/-- The calls of the receiver that get the bytes `bs`, or the end of the stream, from `fd`. -/
def receiveCall (ready : List Int) (bs : List UInt8) : List Act :=
  [.receiver .readCount, .receiver .part1Pre, .receiver (.part1Post (some ready)), .receiver .clientForFd,
    .receiver (.part2 bs.length bs), .receiver .loop]

/-- The stream of the second client ends, and the first goes on. -/
theorem ended_unused_two : ∃ w,
    Path Watched.step Watched.Spared (Watched.init initListener)
      (acceptCall 4 ++ acceptCall 5 ++ receiveCall [5] [] ++ receiveCall [4, 5] [0]) w ∧
    w.ended = [5] ∧ w.used = [] := by
  refine ⟨_, .of_run (by decide +kernel), by decide +kernel, ?_⟩
  exact ended_unused _ _ (.of_run (by decide +kernel))

/-- The stream of the first client ends: it is picked again, before the second one, which has data. -/
theorem not_ended_unused : ¬ ∀ (acts : List Act) (w : Watched),
    Path Watched.step AnyStep (Watched.init initListener) acts w → w.used = [] := by
  intro h
  have hbad := h (acceptCall 4 ++ acceptCall 5 ++ receiveCall [4] [] ++ [.receiver .readCount, .receiver .part1Pre,
    .receiver (.part1Post (some [4, 5]))]) _ (.of_run (by decide +kernel))
  revert hbad
  decide +kernel

end Bcaster
end WlanxVms
