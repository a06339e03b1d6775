import RdmaFuzzing.CText
import RdmaFuzzing.FrameLayout
import RdmaFuzzing.ReusedBuffer

/-! UDP sockets as the proxies and the exchange of connection information use
them: numeric addresses and blocking receives into a fixed buffer. -/

namespace RdmaFuzzing.UdpSocket
open CText FrameLayout ReusedBuffer

structure SockAddr where
  host : CString
  port : CString
  deriving DecidableEq

structure Datagram where
  sender : SockAddr
  bytes : List Byte
  deriving DecidableEq

/-- A successful `recvfrom`: what does not fit the buffer is lost, and the
buffer is left as it was past the bytes received. -/
def recvfrom {n : Nat} (buf : Vector Byte n) (bytes : List Byte) : Vector Byte n × Nat :=
  (store buf 0 bytes, min bytes.length n)

theorem front_recvfrom {n : Nat} (buf : Vector Byte n) (bytes : List Byte) :
    front (recvfrom buf bytes).1 (recvfrom buf bytes).2 = bytes.take n :=
  front_store_min buf bytes

end RdmaFuzzing.UdpSocket
