import RdmaFuzzing.QueuePair

/-! Which partner a queue pair is told to talk to. The client names the identity
that it received; the server names its own GID and a number nobody assigned. -/

namespace RdmaFuzzing.Destinations
open CText FrameLayout ReusedBuffer ConnInfo ConnExchange ExitRun QueuePair

def Names (attr : QpAttr) (partner : Verbs) : Prop :=
  attr.ahAttr.dgid = partner.gid ∧ attr.destQpNum = partner.qpNum.setWidth 32

/-- Every move to RTR in the log names the partner. -/
def RtrNames (log : List Event) (partner : Verbs) : Prop :=
  ∀ attr mask ret, .modifyQp attr mask ret ∈ log → attr.qpState = .rtr → Names attr partner

structure Connected (o : LeftOpen) (client server : Host) : Prop where
  clientRtr : RtrNames (runClient o client).log server.verbs
  serverRtr : RtrNames (runServer o server).log client.verbs
  rts : (runClient o client).value = some () → (runServer o server).value = some () →
    Names (queuePair (runClient o client).log) server.verbs ∧
      Names (queuePair (runServer o server).log) client.verbs

/-- The datagram is the message of this device's program, padded or not. -/
def Genuine (sender : Verbs) (received : List Byte) : Prop :=
  ∃ rest, received = (message sender.gid sender.qpNum).toList ++ rest

structure Exchanged (o : LeftOpen) (client server : Host) : Prop where
  clientXch : .exchanged 0 ∈ (runClient o client).log
  serverXch : .exchanged 0 ∈ (runServer o server).log
  clientHeard : Genuine server.verbs client.received
  serverHeard : Genuine client.verbs server.received

theorem rtrNames_iff {host : Host} {result : Nat × ConnInf} {dest : ConnInf → Gid × BitVec 32}
    {rc : Nat} (partner : Verbs) (exchanged : .exchanged rc ∈ (connect host result dest).log) :
    RtrNames (connect host result dest).log partner ↔
      (dest result.2).1 = partner.gid ∧ (dest result.2).2 = partner.qpNum.setWidth 32 := by
  rw [connect_run host result dest (opened_of_exchanged exchanged)]
  refine ⟨?_, ?_⟩
  · intro names
    refine names (rtrAttr (dest result.2).1 (dest result.2).2 host.destinationLocalId portNum)
      rtrMask (host.verbs.modifyQp .rtr) ?_ rfl
    exact List.mem_append_right _ (List.mem_cons_of_mem _ List.mem_cons_self)
  · intro named attr mask ret logged toRtr
    rcases List.mem_append.mp logged with early | late
    · cases mem_openQueuePair early
      cases toRtr
    · split_ifs at late <;> simp [rtrEvent, rtsEvent] at late
      · rcases late with ⟨rfl, _, _⟩ | ⟨rfl, _, _⟩
        · exact named
        · cases toRtr
      · obtain ⟨rfl, _, _⟩ := late
        exact named

theorem queuePair_names {host : Host} {result : Nat × ConnInf}
    {dest : ConnInf → Gid × BitVec 32} {rc : Nat}
    (exchanged : .exchanged rc ∈ (connect host result dest).log)
    (ready : (connect host result dest).value = some ()) :
    (queuePair (connect host result dest).log).ahAttr.dgid = (dest result.2).1 ∧
      (queuePair (connect host result dest).log).destQpNum = (dest result.2).2 := by
  rw [connect_run host result dest (opened_of_exchanged exchanged)] at ready ⊢
  have up : host.verbs.modifyQp .rtr = 0 ∧ host.verbs.modifyQp .rts = 0 := by
    by_contra down
    simp only [if_neg down] at ready
    cases ready
  simp only [queuePair, List.foldl_append, List.foldl_cons, List.foldl_nil, storeEvent,
    rtrEvent, rtsEvent, up.1, up.2, if_true]
  exact ⟨rfl, rfl⟩

theorem received_identity {o : LeftOpen} {host : Host} {sender : Verbs}
    (heard : Genuine sender host.received)
    (returned : (xchConnInfClient o host.setup host.received (qpnText host.verbs.qpNum)
      host.verbs.gid zeroInf).1 = 0) :
    (xchConnInfClient o host.setup host.received (qpnText host.verbs.qpNum)
      host.verbs.gid zeroInf).2 = ⟨sender.gid, sender.qpNum.toNat⟩ := by
  obtain ⟨rest, datagram⟩ := heard
  rw [datagram, xchConnInfClient_message] at returned ⊢
  split_ifs at returned ⊢
  rfl

theorem theirGid_eq (cinf : ConnInf) : theirGid cinf = cinf.gid := store_toList _ _

theorem ofInt_qpn (qpn : BitVec 24) : BitVec.ofInt 32 qpn.toNat = qpn.setWidth 32 := by
  apply BitVec.eq_of_toNat_eq
  simp

/-- The two queue pairs are connected to each other exactly when the client's
identity is what the server passes anyway. -/
theorem connected_iff (o : LeftOpen) (client server : Host)
    (exchanged : Exchanged o client server) :
    Connected o client server ↔
      server.verbs.gid = client.verbs.gid ∧
        server.destQp = client.verbs.qpNum.setWidth 32 := by
  have received := received_identity exchanged.clientHeard (exchanged_rc exchanged.clientXch)
  have clientDest : theirGid (xchConnInfClient o client.setup client.received
        (qpnText client.verbs.qpNum) client.verbs.gid zeroInf).2 = server.verbs.gid ∧
      BitVec.ofInt 32 (xchConnInfClient o client.setup client.received
        (qpnText client.verbs.qpNum) client.verbs.gid zeroInf).2.qpn =
          server.verbs.qpNum.setWidth 32 := by
    rw [received, theirGid_eq, ofInt_qpn]
    exact ⟨rfl, rfl⟩
  refine ⟨?_, ?_⟩
  · intro connected
    exact (rtrNames_iff client.verbs exchanged.serverXch).mp connected.serverRtr
  · intro named
    refine ⟨(rtrNames_iff server.verbs exchanged.clientXch).mpr clientDest,
      (rtrNames_iff client.verbs exchanged.serverXch).mpr named, ?_⟩
    intro clientReady serverReady
    obtain ⟨clientGid, clientQp⟩ := queuePair_names exchanged.clientXch clientReady
    obtain ⟨serverGid, serverQp⟩ := queuePair_names exchanged.serverXch serverReady
    exact ⟨⟨clientGid.trans clientDest.1, clientQp.trans clientDest.2⟩,
      ⟨serverGid.trans named.1, serverQp.trans named.2⟩⟩

def workingVerbs (gid : Gid) (qpNum : BitVec 24) : Verbs :=
  ⟨true, true, gid, true, true, true, qpNum, fun _ => 0, true⟩

def workingHost (own partner : Verbs) (destQp : BitVec 32) : Host :=
  ⟨own, ⟨true, true, true, true, true⟩, (message partner.gid partner.qpNum).toList ++ [], destQp, 0⟩

theorem working_exchanged (o : LeftOpen) (gid gid' : Gid) (qpn qpn' : BitVec 24)
    (destQp : BitVec 32) :
    Exchanged o (workingHost (workingVerbs gid qpn) (workingVerbs gid' qpn') 0)
      (workingHost (workingVerbs gid' qpn') (workingVerbs gid qpn) destQp) := by
  have up : (Setup.mk true true true true true).succeeds = true := rfl
  refine ⟨?_, ?_, ⟨[], rfl⟩, ⟨[], rfl⟩⟩
  · have ran : xchConnInfClient o ⟨true, true, true, true, true⟩
        ((message gid' qpn').toList ++ []) (qpnText qpn) gid zeroInf = (0, ⟨gid', qpn'.toNat⟩) := by
      rw [xchConnInfClient_message, if_pos up]
    unfold runClient
    simp only [workingHost, workingVerbs, ran]
    exact exchanged_logged rfl
  · have ran : xchConnInfServer o ⟨true, true, true, true, true⟩
        ((message gid qpn).toList ++ []) (qpnText qpn') gid' zeroInf = (0, ⟨gid, qpn.toNat⟩) := by
      rw [xchConnInfServer_message, if_pos up]
    unfold runServer
    simp only [workingHost, workingVerbs, ran]
    exact exchanged_logged rfl

theorem oneDevice_connected :
    Connected unspecified
      (workingHost (workingVerbs (Vector.replicate 16 1) 17)
        (workingVerbs (Vector.replicate 16 1) 18) 0)
      (workingHost (workingVerbs (Vector.replicate 16 1) 18)
        (workingVerbs (Vector.replicate 16 1) 17) 17) :=
  (connected_iff _ _ _ (working_exchanged _ _ _ _ _ _)).mpr ⟨rfl, rfl⟩

theorem twoDevices_not_connected :
    ¬ ∀ (o : LeftOpen) (client server : Host), Exchanged o client server →
      Connected o client server := by
  intro claimed
  have exchanged := working_exchanged unspecified (Vector.replicate 16 1) (Vector.replicate 16 2)
    17 18 17
  have named := (rtrNames_iff _ exchanged.serverXch).mp (claimed _ _ _ exchanged).serverRtr
  exact absurd named.1 (by decide)

end RdmaFuzzing.Destinations
