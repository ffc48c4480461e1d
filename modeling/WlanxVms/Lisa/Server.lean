import Mathlib.Data.Nat.Init
import WlanxVms.Lisa

/-!
# The lisa of a server

What the operations do to the client table `client_fds[0 .. num_clients)`, and which states they
leave behind.
-/

namespace WlanxVms
namespace Lisa
variable {l l' : Lisa}

/-! ### What the operations leave alone -/

/-- The lisa has the same client table, and is the same kind of server. -/
structure SameTable (l l' : Lisa) : Prop where
  clientFds : l'.clientFds = l.clientFds
  numClients : l'.numClients = l.numClients
  type : l'.type = l.type
  clsvr : l'.clsvr = l.clsvr
  vsock : l'.vsock = l.vsock

theorem SameTable.refl (l : Lisa) : SameTable l l := ⟨rfl, rfl, rfl, rfl, rfl⟩

theorem SameTable.table (h : SameTable l l') : l'.table = l.table := by
  rw [Lisa.table, Lisa.table, h.clientFds, h.numClients]

theorem SameTable.sendPost (l : Lisa) (st : LisaState) : SameTable l (l.sendPost st) := by
  unfold Lisa.sendPost; split <;> exact ⟨rfl, rfl, rfl, rfl, rfl⟩

theorem SameTable.recvPart1Post (l : Lisa) (thisFd : Int) (ready : Option (List Int)) :
    SameTable l (l.recvPart1Post thisFd ready).1 := by
  unfold Lisa.recvPart1Post
  split
  · exact ⟨rfl, rfl, rfl, rfl, rfl⟩
  · split
    · split <;> exact ⟨rfl, rfl, rfl, rfl, rfl⟩
    · exact ⟨rfl, rfl, rfl, rfl, rfl⟩

theorem SameTable.recvPart2 (l : Lisa) (rc : Int) : SameTable l (l.recvPart2 rc).1 := by
  unfold Lisa.recvPart2; split <;> exact ⟨rfl, rfl, rfl, rfl, rfl⟩

theorem state_recvPart1Post (l : Lisa) (thisFd : Int) (ready : Option (List Int)) :
    (l.recvPart1Post thisFd ready).1.state = l.state := by
  unfold Lisa.recvPart1Post
  split
  · rfl
  · split
    · split <;> rfl
    · rfl

theorem state_recvPart2 (l : Lisa) (rc : Int) : (l.recvPart2 rc).1.state = l.state := by
  unfold Lisa.recvPart2; split <;> rfl

/-- Listening leaves the clients alone. -/
structure SameClients (l l' : Lisa) : Prop where
  clientFds : l'.clientFds = l.clientFds
  numClients : l'.numClients = l.numClients
  clientFd : l'.clientFd = l.clientFd
  vsock : l'.vsock = l.vsock

theorem SameClients.table (h : SameClients l l') : l'.table = l.table := by
  rw [Lisa.table, Lisa.table, h.clientFds, h.numClients]

theorem SameClients.trans {l'' : Lisa} (h : SameClients l l') (h' : SameClients l' l'') : SameClients l l'' :=
  ⟨h'.clientFds.trans h.clientFds, h'.numClients.trans h.numClients, h'.clientFd.trans h.clientFd,
    h'.vsock.trans h.vsock⟩

theorem SameClients.lisaSetupTcp (l : Lisa) (o : ListenOutcome) : SameClients l (l.lisaSetupTcp o) := by
  unfold Lisa.lisaSetupTcp Lisa.lisaSetNonblocking
  split
  · exact ⟨rfl, rfl, rfl, rfl⟩
  · split
    · exact ⟨rfl, rfl, rfl, rfl⟩
    · split <;> exact ⟨rfl, rfl, rfl, rfl⟩

theorem SameClients.lisaSetupUdp (l : Lisa) (o : ListenOutcome) : SameClients l (l.lisaSetupUdp o) := by
  unfold Lisa.lisaSetupUdp
  split
  · exact ⟨rfl, rfl, rfl, rfl⟩
  · split <;> exact ⟨rfl, rfl, rfl, rfl⟩

theorem SameClients.listenBind (l : Lisa) (o : ListenOutcome) : SameClients l (l.listenBind o) := by
  unfold Lisa.listenBind
  split
  · exact ⟨rfl, rfl, rfl, rfl⟩
  · split
    · exact ⟨rfl, rfl, rfl, rfl⟩
    · by_cases hb : l.state.code < LisaState.bound.code
      · simp only [if_pos hb]; split <;> exact ⟨rfl, rfl, rfl, rfl⟩
      · simp only [if_neg hb]; split <;> exact ⟨rfl, rfl, rfl, rfl⟩

theorem SameClients.lisaListen (l : Lisa) (o : ListenOutcome) : SameClients l (l.lisaListen o) := by
  have hsvr : SameClients l { l with clsvr := .server } := ⟨rfl, rfl, rfl, rfl⟩
  unfold Lisa.lisaListen
  split
  · exact ⟨rfl, rfl, rfl, rfl⟩
  · simp only
    split
    · split
      · exact hsvr.trans ((SameClients.lisaSetupUdp _ o).trans (.listenBind _ o))
      · exact hsvr.trans ((SameClients.lisaSetupTcp _ o).trans (.listenBind _ o))
    · exact hsvr.trans (.listenBind _ o)

theorem SameClients.acceptPre (l : Lisa) (o : ListenOutcome) : SameClients l (l.acceptPre o).1 := by
  have hl := SameClients.lisaListen l o
  unfold Lisa.acceptPre
  split
  · exact ⟨rfl, rfl, rfl, rfl⟩
  · split
    · simp only
      split
      · exact hl
      · exact ⟨hl.clientFds, hl.numClients, hl.clientFd, hl.vsock⟩
    · exact ⟨rfl, rfl, rfl, rfl⟩

theorem thisFd_recvPart2 (l : Lisa) (rc : Int) : (l.recvPart2 rc).1.thisFd = l.thisFd := by
  unfold Lisa.recvPart2; split <;> rfl

theorem thisFd_sendPost (l : Lisa) (st : LisaState) : (l.sendPost st).thisFd = l.thisFd := by
  unfold Lisa.sendPost; split <;> rfl

theorem thisFd_lisaSetupTcp (l : Lisa) (o : ListenOutcome) : (l.lisaSetupTcp o).thisFd = l.thisFd := by
  unfold Lisa.lisaSetupTcp Lisa.lisaSetNonblocking
  split_ifs <;> rfl

theorem thisFd_lisaSetupUdp (l : Lisa) (o : ListenOutcome) : (l.lisaSetupUdp o).thisFd = l.thisFd := by
  unfold Lisa.lisaSetupUdp
  split_ifs <;> rfl

theorem thisFd_listenBind (l : Lisa) (o : ListenOutcome) : (l.listenBind o).thisFd = l.thisFd := by
  unfold Lisa.listenBind
  simp only
  split_ifs <;> rfl

theorem thisFd_lisaListen (l : Lisa) (o : ListenOutcome) : (l.lisaListen o).thisFd = l.thisFd := by
  unfold Lisa.lisaListen
  simp only
  split
  · rfl
  · split
    · split
      · rw [thisFd_listenBind, thisFd_lisaSetupUdp]
      · rw [thisFd_listenBind, thisFd_lisaSetupTcp]
    · rw [thisFd_listenBind]

theorem thisFd_acceptPre (l : Lisa) (o : ListenOutcome) : (l.acceptPre o).1.thisFd = l.thisFd := by
  unfold Lisa.acceptPre
  split
  · rfl
  · split
    · simp only
      split <;> exact thisFd_lisaListen l o
    · rfl

theorem thisFd_acceptPost (l : Lisa) (o : AcceptOutcome) : (l.acceptPost o).1.thisFd = l.thisFd := by
  unfold Lisa.acceptPost
  split
  · rfl
  · rfl
  · rfl
  · split_ifs <;> rfl

/-! ### The client table and the states -/

theorem length_table (l : Lisa) : l.table.length = l.numClients.toNat := Mem.length_read ..

theorem getElem_table {i : Nat} (h : i < l.table.length) : l.table[i] = l.clientFds i := by
  simp [Lisa.table, Mem.getElem_read]

theorem table_addClient (h : 0 ≤ l.numClients) (fd : Int) : (l.addClient fd).table = l.table ++ [fd] := by
  have hn : (l.numClients + 1).toNat = l.numClients.toNat + 1 := by omega
  have hold : (l.clientFds.set l.numClients.toNat fd).read 0 l.numClients.toNat = l.table :=
    Mem.read_congr fun i hi => Mem.set_of_ne _ _ (by omega)
  show (l.clientFds.set l.numClients.toNat fd).read 0 (l.numClients + 1).toNat = _
  rw [hn, Mem.read_add, hold, Mem.read_one, Nat.zero_add, Mem.set_self]

theorem code_neg_iff {st : LisaState} : st.code < 0 ↔ st = .error := by cases st <;> decide

theorem acceptPost_adds (l : Lisa) (o : AcceptOutcome) :
    (∃ rc, o = .accepts rc ∧ ¬(l.vsock = true ∧ rc ≤ 0) ∧ (l.acceptPost o).1 = l.addClient rc) ∨
      SameTable l (l.acceptPost o).1 ∧ (l.acceptPost o).1.clientFd = l.clientFd := by
  cases o with
  | selectFails => exact .inr ⟨⟨rfl, rfl, rfl, rfl, rfl⟩, rfl⟩
  | timeout => exact .inr ⟨⟨rfl, rfl, rfl, rfl, rfl⟩, rfl⟩
  | notSet => exact .inr ⟨⟨rfl, rfl, rfl, rfl, rfl⟩, rfl⟩
  | accepts rc =>
    unfold Lisa.acceptPost
    by_cases hv : l.vsock = true
    · by_cases hrc : rc ≤ 0
      · refine .inr ?_
        simp only [hv, hrc, if_true]
        exact ⟨⟨rfl, rfl, rfl, rfl, hv.symm⟩, trivial⟩
      · exact .inl ⟨rc, rfl, fun h => hrc h.2, by simp only [hv, hrc, if_true, if_false]⟩
    · exact .inl ⟨rc, rfl, fun h => hv h.1, by simp only [hv, Bool.false_eq_true, if_false]⟩

theorem acceptPost_state (l : Lisa) (o : AcceptOutcome) :
    (l.acceptPost o).1.state = .error ∨ (l.acceptPost o).1.state = .timeout ∨ (l.acceptPost o).1.state = .accepted := by
  unfold Lisa.acceptPost Lisa.addClient
  split
  · exact .inl rfl
  · exact .inr (.inl rfl)
  · exact .inr (.inr rfl)
  · split
    · split <;> exact .inr (.inr rfl)
    · exact .inr (.inr rfl)

theorem lisaListen_ok {o : ListenOutcome} (hs : l.state = .uninitialized) (ht : l.type ≠ .udp) (ho : o.ok = true) :
    (l.lisaListen o).state = .bound := by
  have ho : 0 ≤ o.socket ∧ 0 ≤ o.fcntl ∧ 0 ≤ o.bind ∧ 0 ≤ o.listen := of_decide_eq_true ho
  obtain ⟨h₁, h₂, h₃, h₄⟩ := ho
  simp [lisaListen, lisaSetupTcp, lisaSetNonblocking, listenBind, LisaState.code, hs, ht, Int.not_lt.2 h₁, Int.not_lt.2 h₂,
    Int.not_lt.2 h₃, Int.not_lt.2 h₄]

theorem lisaListen_tcp (o : ListenOutcome) (hs : l.state = .uninitialized) (ht : l.type ≠ .udp) :
    (l.lisaListen o).type ≠ .udp ∧
      ((l.lisaListen o).state = .error ∨ (l.lisaListen o).clsvr = .server ∧ (l.lisaListen o).type = .tcp) := by
  by_cases h₁ : o.socket < 0
  · simp [lisaListen, lisaSetupTcp, listenBind, LisaState.code, hs, ht, h₁]
  · by_cases h₂ : o.fcntl < 0
    · simp [lisaListen, lisaSetupTcp, lisaSetNonblocking, listenBind, LisaState.code, hs, ht, h₁, h₂]
    · by_cases h₃ : o.bind < 0
      · simp [lisaListen, lisaSetupTcp, lisaSetNonblocking, listenBind, LisaState.code, hs, ht, h₁, h₂, h₃]
      · by_cases h₄ : o.listen < 0
        · simp [lisaListen, lisaSetupTcp, lisaSetNonblocking, listenBind, LisaState.code, hs, ht, h₁, h₂, h₃, h₄]
        · simp [lisaListen, lisaSetupTcp, lisaSetNonblocking, listenBind, LisaState.code, hs, ht, h₁, h₂, h₃, h₄]

theorem acceptPre_state (o : ListenOutcome) (ht : l.type ≠ .udp)
    (hlow : l.state.code < LisaState.listening.code → l.state = .error ∨ l.state = .uninitialized) :
    l.acceptPre o = (l, false) ∧ l.state = .error ∨
      l.acceptPre o = (l, true) ∧ LisaState.listening.code ≤ l.state.code ∨
      l.state = .uninitialized ∧ (l.acceptPre o).1.type ≠ .udp ∧
        ((l.acceptPre o).1.state = .error ∧ (l.acceptPre o).2 = false ∨
          (l.acceptPre o).1.state = .listening ∧ (l.acceptPre o).2 = true ∧
            (l.acceptPre o).1.clsvr = .server ∧ (l.acceptPre o).1.type = .tcp) := by
  unfold Lisa.acceptPre
  by_cases herr : l.state.code < 0
  · rw [if_pos herr]
    exact .inl ⟨rfl, code_neg_iff.1 herr⟩
  · rw [if_neg herr]
    by_cases hst : l.state.code < LisaState.listening.code
    · have hs : l.state = .uninitialized := (hlow hst).resolve_left fun h => herr (code_neg_iff.2 h)
      obtain ⟨htype, hl⟩ := lisaListen_tcp o hs ht
      rw [if_pos hst]
      refine .inr (.inr ⟨hs, ?_⟩)
      by_cases hneg : (l.lisaListen o).state.code < 0
      · simp only [if_pos hneg]
        exact ⟨htype, .inl ⟨code_neg_iff.1 hneg, trivial⟩⟩
      · obtain ⟨hcl, htcp⟩ := hl.resolve_left fun h => hneg (code_neg_iff.2 h)
        simp only [if_neg hneg]
        exact ⟨htype, .inr ⟨trivial, trivial, hcl, htcp⟩⟩
    · rw [if_neg hst]
      exact .inr (.inl ⟨rfl, Int.not_lt.1 hst⟩)

theorem acceptPre_ok {o : ListenOutcome} (hs : l.state = .uninitialized) (ht : l.type ≠ .udp) (ho : o.ok = true) :
    (l.acceptPre o).1.state = .listening := by
  simp [Lisa.acceptPre, lisaListen_ok hs ht ho, hs, LisaState.code]

theorem recvPart1Pre_cases (hcl : l.clsvr = .server)
    (hst : l.state = .error ∨ LisaState.connected.code ≤ l.state.code) :
    l.recvPart1Pre = .returns (-1) ∨ l.recvPart1Pre = .selects l.table (l.table.getLastD 0) := by
  unfold Lisa.recvPart1Pre
  rcases hst with hst | hst
  · rw [if_pos (code_neg_iff.2 hst)]
    exact .inl rfl
  · have hcode : (0 : Int) ≤ LisaState.connected.code := by decide
    rw [if_neg (by omega), if_neg (by rw [hcl]; simpa using hst)]
    exact .inr rfl

theorem recvPart1Post_mem {thisFd : Int} (ready : Option (List Int)) (h : thisFd ∈ l.table) :
    (l.recvPart1Post thisFd ready).2 < 0 ∨ (l.recvPart1Post thisFd ready).2 ∈ l.table := by
  unfold Lisa.recvPart1Post
  split
  · exact .inl (Int.negSucc_lt_zero 0)
  · split
    · next fd hfd =>
      split
      · exact .inr (List.mem_of_find?_eq_some hfd)
      · exact .inr h
    · exact .inr h

/-! ### The loop of `lisa_cast` -/

section
variable {last : Int} {i j : Nat}

theorem filter_take_of_eq {xs : List Int} (hij : i ≤ j) (h : ∀ m, i ≤ m → m < j → ∀ fd ∈ xs[m]?, fd = last) :
    (xs.take j).filter (· ≠ last) = (xs.take i).filter (· ≠ last) := by
  induction j, hij using Nat.le_induction with
  | base => rfl
  | succ j hij ih =>
    have hj : xs[j]?.toList.filter (· ≠ last) = [] := by
      rw [List.filter_eq_nil_iff]
      intro fd hfd
      have hfd := h j hij (Nat.lt_succ_self j) fd (Option.mem_toList.1 hfd)
      simp [hfd]
    rw [List.take_add_one, List.filter_append, hj, List.append_nil]
    exact ih fun m him hmj => h m him (Nat.lt_succ_of_lt hmj)

theorem getElem?_table (l : Lisa) (i : Nat) (h : i < l.numClients.toNat) : l.table[i]? = some (l.clientFds i) := by
  rw [← length_table] at h
  rw [List.getElem?_eq_getElem h, getElem_table]

theorem castFind_eq_some (h : l.castFind last i = some j) :
    l.table[j]? = some (l.clientFds j) ∧ l.clientFds j ≠ last ∧ j < l.table.length ∧
      (l.table.take j).filter (· ≠ last) = (l.table.take i).filter (· ≠ last) := by
  obtain ⟨hp, hmem, hbefore⟩ := List.find?_range'_eq_some.1 h
  obtain ⟨hij, hj⟩ := List.mem_range'_1.1 hmem
  have hjn : j < l.numClients.toNat := by omega
  refine ⟨getElem?_table l j hjn, of_decide_eq_true hp, by rw [length_table]; exact hjn, ?_⟩
  refine filter_take_of_eq hij fun m him hmj fd hfd => ?_
  rw [getElem?_table l m (by omega)] at hfd
  cases hfd
  simpa using hbefore m him hmj

theorem castFind_eq_none (hi : i ≤ l.table.length) (h : l.castFind last i = none) :
    (l.table.take i).filter (· ≠ last) = l.table.filter (· ≠ last) := by
  rw [length_table] at hi
  have hall := List.find?_range'_eq_none.1 h
  have hfull : l.table.take l.table.length = l.table := List.take_length
  rw [length_table] at hfull
  rw [← filter_take_of_eq hi, hfull]
  intro m him hmj fd hfd
  rw [getElem?_table l m hmj] at hfd
  cases hfd
  simpa using hall m him (by omega)

end

end Lisa
end WlanxVms
