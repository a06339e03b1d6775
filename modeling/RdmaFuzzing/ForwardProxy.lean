import RdmaFuzzing.UdpSocket

/-! The receive loop of `proxy.c`, which forwards everything that reaches its
port to one address. As in the other UDP proxies a turn receives into a buffer
that is clear, and the buffer is cleared as a whole at its end. -/

namespace RdmaFuzzing.ForwardProxy
open FrameLayout ReusedBuffer UdpSocket

def bufSize : Nat := 1024

def zeroBuf : Vector Byte bufSize := Vector.replicate bufSize 0

structure Turn where
  received : List Byte
  sent : List Byte

/-- The length handed to `sendto` is that of the buffer. -/
def turn (buf : Vector Byte bufSize) (bytes : List Byte) : Turn × Vector Byte bufSize :=
  let (buf, _) := recvfrom buf bytes
  (⟨bytes, buf.toList⟩, fill buf bufSize 0)

def mainLoop (buf : Vector Byte bufSize) : List (List Byte) → List Turn
  | [] => []
  | bytes :: rest => (turn buf bytes).1 :: mainLoop (turn buf bytes).2 rest

def main (packets : List (List Byte)) : List Turn := mainLoop zeroBuf packets

theorem turn_clear (bytes : List Byte) :
    turn zeroBuf bytes = (⟨bytes, (store zeroBuf 0 bytes).toList⟩, zeroBuf) := by
  simp only [turn, recvfrom, fill_all]
  rfl

theorem main_eq (packets : List (List Byte)) :
    main packets = packets.map fun bytes => ⟨bytes, (store zeroBuf 0 bytes).toList⟩ := by
  rw [main]
  induction packets with
  | nil => rfl
  | cons bytes rest ih => rw [mainLoop, turn_clear, ih, List.map_cons]

end RdmaFuzzing.ForwardProxy
