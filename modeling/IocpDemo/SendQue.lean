/-
**What `SendQueLock` guards, and the packet handlers** (`IOCPServer.cpp`).

The handlers, `OnConnected` and the two `GetPending…` functions each hold `SendQueLock` from their
first line to their last, and nothing else touches the roster `ConnectedPlayers` or the two queues.
Each of them is therefore a function on these three, and calls on different threads follow one
another.

Main definitions:

* `IocpDemo.SendQue` — `ConnectedPlayers`, `IOSendPacketQue` and `IOSendBCPacketQue`;
* `IocpDemo.Runtime` — what the language leaves open: the protobuf codecs, in which order a call of
  `SerializePacket` evaluates its arguments, and in which order the unordered map is iterated;
* `IocpDemo.recvLoginPacket`, `IocpDemo.sendLoginedPlayerPackets`, `IocpDemo.recvFireEventPacket`,
  `IocpDemo.recvMovementPacket`, `IocpDemo.recvAnimPacket`, `IocpDemo.recvWeaponPacket` — the
  handlers;
* `IocpDemo.deSerializePacket` — the dispatch on the packet type;
* `IocpDemo.onConnected`, `IocpDemo.getPendingPacket`, `IocpDemo.getPendingBCPacket` — the rest of
  what runs under the lock.

Main results:

* `IocpDemo.recvRelay_eq` — what a relaying handler appends;
* `IocpDemo.recvLoginPacket_eq` — what the login handler stores and appends.
-/

import IocpDemo.Packet
import Mathlib.Data.List.Basic

set_option relaxedAutoImplicit false
set_option autoImplicit false

namespace IocpDemo

open Bytes

/-! ### The guarded state -/

/-- The entries of `unordered_map<int, ClientInfo>`, in the order in which they were inserted. -/
abbrev Roster := List (Int32 × ClientInfo)

/-- The state guarded by `SendQueLock`. -/
structure SendQue where
  connectedPlayers : Roster := []
  ioSendPacketQue : List PacketBuffer := []
  ioSendBCPacketQue : List PacketBuffer := []

/-- The functions `PacketFuncMap` maps to. -/
inductive RecvFunc
  | recvLoginPacket
  | recvFireEventPacket
  | recvMovementPacket
  | recvAnimPacket
  | recvWeaponPacket
  deriving DecidableEq, Repr

/-- Whether `SerializePacket<T>(Msg, …, Msg.mutable_id()->index())` copies the message before or
after `mutable_id()` has created a missing `Id`. -/
inductive ArgOrder
  | copyFirst
  | mutableIdFirst
  deriving DecidableEq, Repr

/-- What the language and the libraries leave open. -/
structure Runtime where
  proto : Protobuf
  /-- The order the compiler chose at the call in each handler. -/
  argOrder : RecvFunc → ArgOrder
  /-- The order in which `for (auto& Player : ConnectedPlayers)` visits the entries. -/
  iteration : Roster → Roster
  iteration_perm : ∀ r, (iteration r).Perm r

/-- The copy of the message that `SerializePacket` receives. -/
def serializeArg {M : Type} [HasId M] : ArgOrder → M → M
  | .copyFirst, m => m
  | .mutableIdFirst, m => mutableId m

@[simp] theorem idIndex_serializeArg {M : Type} [HasId M] (o : ArgOrder) (m : M) :
    idIndex (serializeArg o m) = idIndex m := by
  cases o with
  | copyFirst => rfl
  | mutableIdFirst => exact idIndex_mutableId m

/-! ### The login handler -/

/-- The roster entry made of a login: `ClientInfo(FVector(x, y, z), FRotator(roll, pitch, yaw))`. -/
def loginInfo (login : PMovement) : ClientInfo :=
  let loc := login.loc.getD {}
  let rot := login.rot.getD {}
  ⟨⟨loc.x, loc.y, loc.z⟩, ⟨rot.roll, rot.pitch, rot.yaw⟩⟩

/-- The packet that tells `target` about the player `player`. -/
def rosterPacket (P : Protobuf) (target : Int32) (player : Int32 × ClientInfo) : PacketBuffer :=
  let login : PMovement :=
    { id := some { index := player.1.toUInt32 }
      loc := some { x := player.2.location.x, y := player.2.location.y, z := player.2.location.z }
      rot := some { pitch := player.2.rotation.pitch, roll := player.2.rotation.roll,
                    yaw := player.2.rotation.yaw } }
  serializePacket P.movement login EPacketType.loginC.toUInt8 target.toUInt32.toUInt16

/-- `SendLoginedPlayerPackets`. -/
def sendLoginedPlayerPackets (R : Runtime) (target : Int32) (q : SendQue) : SendQue :=
  { q with
    ioSendPacketQue := q.ioSendPacketQue ++
      ((R.iteration q.connectedPlayers).filter fun player => player.1 ≠ target).map
        (rosterPacket R.proto target) }

/-- `ConnectedPlayers.emplace`, when `find` has not found the key. -/
def emplaceLogin (login : PMovement) (r : Roster) : Roster :=
  let key := (idIndex login).toInt32
  match r.lookup key with
  | some _ => r
  | none => r ++ [(key, loginInfo login)]

/-- `RecvLoginPacket`, on the `DataSize` bytes at `Data`. -/
def recvLoginPacket (R : Runtime) (data : List UInt8) (q : SendQue) : SendQue :=
  let login := (R.proto.movement.parseFromArray data).1
  let q := { q with connectedPlayers := emplaceLogin login q.connectedPlayers }
  let loginBuffer := serializePacket R.proto.movement
    (serializeArg (R.argOrder .recvLoginPacket) login) EPacketType.loginC.toUInt8
    (idIndex (mutableId login)).toUInt16
  let q := { q with
    ioSendBCPacketQue := q.ioSendBCPacketQue ++ [{ loginBuffer with bIsReliable := true }] }
  sendLoginedPlayerPackets R (idIndex login).toInt32 q

/-! ### The relaying handlers -/

/-- What the other four handlers do: parse, serialize again under the type for clients, address the
packet to the index of the message's `Id`, and queue it for broadcast. -/
def recvRelay {M : Type} [HasId M] (c : Codec M) (o : ArgOrder) (pType : EPacketType)
    (reliable : Bool) (data : List UInt8) (q : SendQue) : SendQue :=
  let m := (c.parseFromArray data).1
  let buffer := serializePacket c (serializeArg o m) pType.toUInt8 (idIndex (mutableId m)).toUInt16
  { q with
    ioSendBCPacketQue := q.ioSendBCPacketQue ++ [{ buffer with bIsReliable := reliable }] }

/-- `RecvFireEventPacket`. -/
def recvFireEventPacket (R : Runtime) : List UInt8 → SendQue → SendQue :=
  recvRelay R.proto.fireEvent (R.argOrder .recvFireEventPacket) .fireEventC false

/-- `RecvMovementPacket`. -/
def recvMovementPacket (R : Runtime) : List UInt8 → SendQue → SendQue :=
  recvRelay R.proto.movement (R.argOrder .recvMovementPacket) .movementC false

/-- `RecvAnimPacket`. -/
def recvAnimPacket (R : Runtime) : List UInt8 → SendQue → SendQue :=
  recvRelay R.proto.animState (R.argOrder .recvAnimPacket) .animStateC false

/-- `RecvWeaponPacket`. -/
def recvWeaponPacket (R : Runtime) : List UInt8 → SendQue → SendQue :=
  recvRelay R.proto.weapon (R.argOrder .recvWeaponPacket) .weaponStateC true

/-! ### The dispatch -/

/-- `PacketFuncMap`, as `InitServer` fills it. -/
def packetFuncMap : List (EPacketType × RecvFunc) :=
  [(.loginS, .recvLoginPacket), (.fireEventS, .recvFireEventPacket),
    (.movementS, .recvMovementPacket), (.animStateS, .recvAnimPacket),
    (.weaponStateS, .recvWeaponPacket)]

/-- `PacketFuncMap.find`, on a packet id of any value. -/
def findFunc (packetID : UInt16) : Option RecvFunc :=
  (packetFuncMap.find? fun entry => entry.1.code == packetID).map Prod.snd

/-- Calling a handler. -/
def callFunc (R : Runtime) : RecvFunc → List UInt8 → SendQue → SendQue
  | .recvLoginPacket => recvLoginPacket R
  | .recvFireEventPacket => recvFireEventPacket R
  | .recvMovementPacket => recvMovementPacket R
  | .recvAnimPacket => recvAnimPacket R
  | .recvWeaponPacket => recvWeaponPacket R

/-- `DeSerializePacket`: a packet id without an entry is ignored. -/
def deSerializePacket (R : Runtime) (packetID : UInt16) (data : List UInt8) (q : SendQue) :
    SendQue :=
  match findFunc packetID with
  | some f => callFunc R f data q
  | none => q

/-! ### The rest of what runs under the lock -/

/-- The packet `OnConnected` makes for a client index. -/
def connPacket (P : Protobuf) (index : UInt16) : PacketBuffer :=
  let connect : PClientId := { index := index.toUInt32 }
  serializePacket P.clientId connect EPacketType.connC.toUInt8 connect.index.toUInt16

/-- `OnConnected`. -/
def onConnected (R : Runtime) (index : UInt16) (q : SendQue) : SendQue :=
  { q with ioSendPacketQue := q.ioSendPacketQue ++ [connPacket R.proto index] }

/-- `GetPendingPacket`: an empty queue gives the default packet. -/
def getPendingPacket (q : SendQue) : PacketBuffer × SendQue :=
  match q.ioSendPacketQue with
  | [] => ({}, q)
  | p :: ps => (p, { q with ioSendPacketQue := ps })

/-- `GetPendingBCPacket`. -/
def getPendingBCPacket (q : SendQue) : PacketBuffer × SendQue :=
  match q.ioSendBCPacketQue with
  | [] => ({}, q)
  | p :: ps => (p, { q with ioSendBCPacketQue := ps })

/-! ### What the handlers do -/

/-- The message type a packet id is parsed as decides which `Id` its handler reads. -/
def frameIdIndex (R : Runtime) (data : List UInt8) : RecvFunc → UInt32
  | .recvLoginPacket => idIndex (R.proto.movement.parseFromArray data).1
  | .recvFireEventPacket => idIndex (R.proto.fireEvent.parseFromArray data).1
  | .recvMovementPacket => idIndex (R.proto.movement.parseFromArray data).1
  | .recvAnimPacket => idIndex (R.proto.animState.parseFromArray data).1
  | .recvWeaponPacket => idIndex (R.proto.weapon.parseFromArray data).1

/-- A relaying handler appends one packet to the broadcast queue and changes nothing else. -/
theorem recvRelay_eq {M : Type} [HasId M] (c : Codec M) (o : ArgOrder) (pType : EPacketType)
    (reliable : Bool) (data : List UInt8) (q : SendQue) :
    recvRelay c o pType reliable data q =
      { q with ioSendBCPacketQue := q.ioSendBCPacketQue ++
        [{ serializePacket c (serializeArg o (c.parseFromArray data).1) pType.toUInt8
            (idIndex (c.parseFromArray data).1).toUInt16 with bIsReliable := reliable }] } := by
  simp [recvRelay]

/-- The login handler: the roster gains the player if it was absent, one packet is queued for
broadcast, and one for each other player of the new roster is queued for the sender. -/
theorem recvLoginPacket_eq (R : Runtime) (data : List UInt8) (q : SendQue) :
    let login := (R.proto.movement.parseFromArray data).1
    let roster := emplaceLogin login q.connectedPlayers
    recvLoginPacket R data q =
      { connectedPlayers := roster
        ioSendPacketQue := q.ioSendPacketQue ++
          ((R.iteration roster).filter fun player => player.1 ≠ (idIndex login).toInt32).map
            (rosterPacket R.proto (idIndex login).toInt32)
        ioSendBCPacketQue := q.ioSendBCPacketQue ++
          [{ serializePacket R.proto.movement (serializeArg (R.argOrder .recvLoginPacket) login)
                EPacketType.loginC.toUInt8 (idIndex login).toUInt16 with
              bIsReliable := true }] } := by
  simp [recvLoginPacket, sendLoginedPlayerPackets]

end IocpDemo
