import Fritz2ci.Spec.Notification

/-! `fritz.c`: the connection to the call monitor and the branches of the listener thread. -/

namespace Fritz2ci

open CString

def FRITZ_BUFFER_SIZE : ℕ := 1024

/-- The bits of `state` are the three Booleans. Beside the struct: the unread bytes of
the control pipe, the armed `_fritz_try_reconnect` sources of the main loop and the
messages handed to `fritz_listen_cb`. -/
structure CIFritzServer where
  initialized : Bool
  connected : Bool
  listening : Bool
  sock : Int
  assocIfindex : Int
  fdpipe : List UInt8
  timers : ℕ
  callbacks : List CIFritzCallMsg

/-- After a successful `fritz_init`. -/
def fritzInit : CIFritzServer := ⟨true, false, false, 0, 0, [], 0, []⟩

/-- What `socket`, `connect` and `netutil_get_interface_from_sock` answer. -/
inductive ConnectResult
  | noSocket
  | refused
  | established (fd : ℕ) (ifindex : Option Int)
  deriving DecidableEq, Repr

/-- `_fritz_connect`, with the value left in `*connected`. -/
def fritzConnect (r : ConnectResult) (srv : CIFritzServer) : Bool × CIFritzServer :=
  if !srv.initialized then (false, srv)
  else if srv.connected then (true, srv)
  else match r with
    | .noSocket => (false, { srv with sock := -1 })
    | .refused => (false, { srv with sock := -1 })
    | .established fd ifindex => (true, { srv with
        sock := fd
        -- an interface that cannot be determined leaves the old index in place
        assocIfindex := ifindex.getD srv.assocIfindex
        connected := true })

/-- The bytes `_fritz_try_reconnect` writes to the control pipe. -/
def addSock : List UInt8 := ascii "add sock"

/-- The bytes `fritz_shutdown` writes to the control pipe. -/
def disconnect : List UInt8 := ascii "disconnect"

def writePipe (msg : List UInt8) (srv : CIFritzServer) : CIFritzServer :=
  { srv with fdpipe := srv.fdpipe ++ msg }

/-- `_fritz_try_reconnect` as the main loop runs it: the source is removed when it
returns FALSE, that is when the attempt connected. -/
def fritzTryReconnect (r : ConnectResult) (srv : CIFritzServer) : CIFritzServer :=
  let (connected, srv') := fritzConnect r srv
  if connected then { writePipe addSock srv' with timers := srv'.timers - 1 } else srv'

/-- `_fritz_try_connect` -/
def fritzTryConnect (r : ConnectResult) (srv : CIFritzServer) : CIFritzServer :=
  if srv.connected then srv
  else
    let (connected, srv') := fritzConnect r srv
    if connected then srv' else { srv' with timers := srv'.timers + 1 }

/-- `_fritz_handle_net_up` ignores which interface came up. -/
def fritzHandleNetUp (r : ConnectResult) (srv : CIFritzServer) : CIFritzServer :=
  fritzTryConnect r srv

/-- `_fritz_handle_net_down` -/
def fritzHandleNetDown (ifindex : Int) (srv : CIFritzServer) : CIFritzServer :=
  if ifindex = srv.assocIfindex then { srv with sock := -1, connected := false } else srv

/-- `fritz_startup` and the first statement of the thread it starts. -/
def fritzStartup (r : ConnectResult) : CIFritzServer :=
  { fritzTryConnect r fritzInit with listening := true }

/-- The socket branch of the listener for the bytes `recv` returned; none for a result
that is zero or negative. -/
def fritzListenSock (received : List UInt8) (srv : CIFritzServer) : CIFritzServer :=
  if 1 ≤ received.length then
    match fritzParseNotification (some (ofBuffer received)) with
    | .ok cmsg => { srv with callbacks := srv.callbacks ++ [cmsg] }
    | .error _ => srv
  else { srv with connected := false, sock := -1 }

/-- The bytes the next `read` of the control pipe takes. -/
def pipeChunk (srv : CIFritzServer) : List UInt8 := srv.fdpipe.take (FRITZ_BUFFER_SIZE - 1)

/-- Whether the thread returns after reading these bytes. -/
def isTerminating (bytes : List UInt8) : Bool :=
  bytes ≠ [] && strncmpEq (if 10 < bytes.length then 10 else bytes.length) bytes disconnect

/-- The control-pipe branch of the listener. -/
def fritzListenPipe (srv : CIFritzServer) : CIFritzServer :=
  let srv' := { srv with fdpipe := srv.fdpipe.drop (FRITZ_BUFFER_SIZE - 1) }
  if isTerminating (pipeChunk srv) then { srv' with listening := false } else srv'

/-- The request `fritz_shutdown` sends to a listening thread before it joins it. -/
def fritzShutdownRequest (srv : CIFritzServer) : CIFritzServer :=
  if srv.listening then writePipe disconnect srv else srv

end Fritz2ci
