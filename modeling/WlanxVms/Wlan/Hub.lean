import WlanxVms.Bcaster.Bus

/-!
# The sockets of the bcaster

A client reads what its socket takes while the `lisa_cast` is still under way. On the bus that counts the packet
under way as published (`Ahead`), each socket took the first messages that its client hears.
-/

namespace WlanxVms
namespace Bcaster
open Framing Broadcast

namespace Sys
variable {s t : Sys}

/-- The calls of `lisa_send`, also of the `lisa_cast` under way -/
def allSends (s : Sys) : List (Int × List UInt8) := (s.casts ++ s.receiver.cast.toList).flatMap Cast.sends

/-- What the socket `fd` took, one entry for each `lisa_send` -/
def given (s : Sys) (fd : Int) : List (List UInt8) := (s.allSends.filter (·.1 = fd)).map Prod.snd

def onSocket (s : Sys) (fd : Int) : List UInt8 := (s.given fd).flatten

theorem allSends_same (hcasts : t.casts = s.casts) (hcast : t.receiver.cast = s.receiver.cast) :
    s.allSends <+: t.allSends := by
  have heq : t.allSends = s.allSends := by rw [allSends, allSends, hcasts, hcast]
  exact heq ▸ List.prefix_rfl

theorem allSends_of_idle (hc : s.receiver.cast = none) : s.allSends = s.casts.flatMap Cast.sends := by
  rw [allSends, hc, Option.toList_none, List.append_nil]

theorem allSends_of_cast {c : Cast} (hc : s.receiver.cast = some c) :
    s.allSends = s.casts.flatMap Cast.sends ++ c.sends := by
  rw [allSends, hc, List.flatMap_append]
  exact congrArg _ (List.flatMap_singleton ..)

theorem allSends_castSeek (s : Sys) (k : Casting) :
    (s.castSeek k).allSends = s.casts.flatMap Cast.sends ++ k.cast.sends := by
  rcases castSeek_cases s k with ⟨j, -, he⟩ | ⟨-, he⟩
  · rw [he]; exact allSends_of_cast rfl
  · rw [he, allSends_of_idle rfl]
    show (s.casts ++ [k.cast]).flatMap Cast.sends = _
    rw [List.flatMap_append, List.flatMap_singleton]

theorem allSends_step {a : Act} (h : s.step a = some t) : s.allSends <+: t.allSends := by
  cases a with
  | listener a =>
    have hf := listener_frame h
    exact allSends_same hf.casts (congrArg _ hf.receiver)
  | receiver a =>
    have hbefore : BeforeRecv s t → s.receiver.cast = none → t.receiver.cast = none → s.allSends <+: t.allSends := by
      intro hb hs ht
      exact allSends_same hb.casts (ht.trans hs.symm)
    cases a with
    | readCount =>
      obtain ⟨hpc, he⟩ := readCount_cases h
      refine hbefore (.readCount h) (by rw [hpc]; rfl) ?_
      rw [he]
      show (if _ then ReceiverPc.idle else .part1).cast = none
      split <;> rfl
    | part1Pre =>
      obtain ⟨hpc, ⟨rc, -, he⟩ | ⟨fds, thisFd, -, he⟩⟩ := part1Pre_cases h
      · refine hbefore (.part1Pre h) (by rw [hpc]; rfl) ?_
        rw [he]
        show (if rc < 0 then ReceiverPc.idle else .picked rc false).cast = none
        split <;> rfl
      · exact hbefore (.part1Pre h) (by rw [hpc]; rfl) (by rw [he]; rfl)
    | part1Post ready =>
      obtain ⟨fds, thisFd, hpc, -, he⟩ := part1Post_cases h
      refine hbefore (.part1Post h) (by rw [hpc]; rfl) ?_
      rw [he]
      show (if _ < 0 then ReceiverPc.idle else .picked _ true).cast = none
      split <;> rfl
    | clientForFd =>
      obtain ⟨clfd, locked, hpc, ⟨clnum, -, he⟩ | ⟨-, he⟩⟩ := clientForFd_cases h
      · exact hbefore (.clientForFd h) (by rw [hpc]; rfl) (by rw [he]; rfl)
      · exact hbefore (.clientForFd h) (by rw [hpc]; rfl) (by rw [he]; rfl)
    | part2 rc bs =>
      obtain ⟨clfd, clnum, locked, hpc, -, rfl⟩ := part2_cases h
      exact allSends_same rfl (by rw [hpc]; rfl)
    | loop =>
      obtain ⟨clfd, clnum, hpc, ⟨-, -, rfl⟩ | ⟨-, -, rfl⟩ | ⟨-, rfl⟩⟩ := loop_cases h
      · exact allSends_same rfl (by rw [hpc]; rfl)
      · exact allSends_same rfl rfl
      · exact allSends_same rfl (by rw [hpc]; rfl)
    | castStart =>
      obtain ⟨clfd, clnum, hpc, rfl⟩ := castStart_cases h
      rw [allSends_castSeek, allSends_of_idle (by rw [hpc]; rfl)]
      exact List.prefix_append ..
    | sendPre =>
      obtain ⟨k, hpc, ⟨-, rfl⟩ | ⟨c, -, rfl⟩⟩ := sendPre_cases h
      · rw [allSends_of_cast (show s.receiver.cast = some k.cast by rw [hpc]; rfl), allSends_of_cast rfl]
        exact (List.prefix_append_right_inj _).2 (List.prefix_append ..)
      · exact allSends_same rfl (by rw [hpc]; rfl)
    | send outs =>
      obtain ⟨k, c, r, hpc, -, rfl⟩ := send_cases h
      rw [allSends_of_cast (show s.receiver.cast = some k.cast by rw [hpc]; rfl), allSends_of_cast rfl]
      exact (List.prefix_append_right_inj _).2 (List.prefix_append ..)
    | castNext =>
      obtain ⟨k, hpc, rfl⟩ := castNext_cases h
      have hbefore := allSends_of_cast (show s.receiver.cast = some k.cast by rw [hpc]; rfl)
      have hafter := allSends_castSeek s { k with i := k.i + 1 }
      exact (hbefore.trans hafter.symm) ▸ List.prefix_rfl

theorem given_step {a : Act} (h : s.step a = some t) (fd : Int) : s.given fd <+: t.given fd :=
  ((allSends_step h).filter _).map _

end Sys

namespace Metered
variable {F : Int → List Frame} {bus : Bus Int (List UInt8)} {b : Metered}

/-- The bus, with the packet under way in its log -/
structure Ahead (F : Int → List Frame) (bus : Bus Int (List UInt8)) (b : Metered) : Prop where
  members : bus.members.map Prod.fst = b.sys.lp.table
  arrived : ∀ fd, bus.published fd <+: stream F fd ∧ (bus.published fd).flatten.length ≤ b.got fd
  given : ∀ m ∈ bus.members, b.sys.given m.1 <+: bus.heard m.1 m.2
  outside : ∀ fd, fd ∉ b.sys.lp.table → b.sys.given fd = []
  complete : b.sys.receiver = .idle → (∀ fd, bus.published fd = completed (stream F fd) (b.got fd)) ∧
    ∀ m ∈ bus.members, b.sys.given m.1 = bus.heard m.1 m.2

theorem given_of_idle {s : Sys} (hc : s.receiver.cast = none) (fd : Int) : s.given fd = s.delivered fd := by
  rw [Sys.given, Sys.allSends_of_idle hc, Sys.delivered]

theorem given_of_cast {s : Sys} {c : Cast} (hc : s.receiver.cast = some c) (fd : Int) :
    s.given fd = s.delivered fd ++ (c.sends.filter (·.1 = fd)).map Prod.snd := by
  rw [Sys.given, Sys.allSends_of_cast hc, List.filter_append, List.map_append, Sys.delivered]

theorem given_eq_nil {s : Sys} (hc : s.CastInv [] 0) {fd : Int} (hfd : fd ∉ s.lp.table) : s.given fd = [] := by
  have hnone := delivered_eq_nil hc hfd
  cases hcast : s.receiver.cast with
  | none => rw [given_of_idle hcast, hnone]
  | some c =>
    have hbegun : ∀ {k : Casting} {n : Nat}, k.Begun [] s.lp.table n → k.cast = c →
        (c.sends.filter (·.1 = fd)).map Prod.snd = [] := by
      rintro k n hk rfl
      rw [List.map_eq_nil_iff, List.filter_eq_nil_iff]
      intro x hx heq
      have hmem : x.1 ∈ (s.lp.table.take n).filter (· ≠ k.cast.sender) := hk.sends ▸ List.mem_map_of_mem hx
      exact hfd (of_decide_eq_true heq ▸ List.mem_of_mem_take (List.mem_filter.1 hmem).1)
    rw [given_of_cast hcast, hnone, List.nil_append]
    have hr := hc.receiver
    cases hpc : s.receiver with
    | target k => rw [hpc] at hr hcast; exact hbegun hr.1 (Option.some.inj hcast)
    | sending k call => rw [hpc] at hr hcast; exact hbegun hr.1 (Option.some.inj hcast)
    | sent k => rw [hpc] at hr hcast; exact hbegun hr (Option.some.inj hcast)
    | _ => rw [hpc] at hcast; cases hcast

theorem Inv.ahead (h : b.Inv F bus) :
    ∃ bacts bus', Path Bus.step AnyStep bus bacts bus' ∧ b.Ahead F bus' := by
  have houtside : ∀ fd, fd ∉ b.sys.lp.table → b.sys.given fd = [] := fun fd => given_eq_nil (h.calm.failInv 0).casts
  cases hcast : b.sys.receiver.cast with
  | none =>
    have hgiven : ∀ m ∈ bus.members, b.sys.given m.1 = bus.heard m.1 m.2 := fun m hm =>
      (given_of_idle hcast m.1).trans (h.delivered m hm)
    exact ⟨[], bus, .nil bus, h.members, h.arrived, fun m hm => hgiven m hm ▸ List.prefix_rfl, houtside,
      fun hidle => ⟨h.complete hidle, hgiven⟩⟩
  | some c =>
    obtain ⟨htable, clnum, hp⟩ := h.inHand hcast
    obtain ⟨hnodup, hnot⟩ := (h.calm.failInv 0).casts.underWay h.inStep.nodup hcast
    have hmem : c.sender ∈ bus.members.map Prod.fst := by
      rw [h.members]
      rw [h.inStep.table] at htable
      exact List.mem_of_mem_take htable
    refine ⟨[.publish c.sender c.pkt.bytes], _, .single trivial (if_pos hmem), h.members, fun fd => ?_, fun m hm => ?_,
      houtside, fun hidle => ?_⟩
    · rw [Bus.published_append]
      split
      · next he => exact he ▸ ⟨hp.next, hp.count_le⟩
      · rw [List.append_nil]; exact h.arrived fd
    · rw [Bus.heard_append (h.joined m hm), given_of_cast hcast, h.delivered m hm, List.prefix_append_right_inj,
        delivered_of_sends (h.calm.full (.inr hcast)) hnodup]
      by_cases hself : c.sender = m.1
      · rw [if_neg (hself ▸ hnot)]
        exact List.nil_prefix
      · rw [if_neg hself]
        split
        · exact List.prefix_rfl
        · exact List.nil_prefix
    · rw [hidle] at hcast
      cases hcast

theorem Ahead.mem_stream (h : b.Ahead F bus) {fd : Int} {p : List UInt8} (hp : p ∈ b.sys.given fd) :
    ∃ sender, p ∈ stream F sender := by
  by_cases hfd : fd ∈ b.sys.lp.table
  · rw [← h.members] at hfd
    obtain ⟨m, hm, rfl⟩ := List.mem_map.1 hfd
    obtain ⟨e, he, rfl⟩ := List.mem_map.1 ((h.given m hm).subset hp)
    refine ⟨e.1, (h.arrived e.1).1.subset (List.mem_map_of_mem (List.mem_filter.2 ⟨?_, decide_eq_true rfl⟩))⟩
    exact List.mem_of_mem_drop (List.mem_filter.1 he).1
  · rw [h.outside fd hfd] at hp
    cases hp

end Metered
end Bcaster
end WlanxVms
