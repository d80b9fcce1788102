import LcmBridge.Core.Bridge
import LcmBridge.Core.Serde
import LcmBridge.Core.Url

/-!
# Starting the Plugin

From a configuration to the running bridge.

`start` only reads the configuration. Everything else happens in `run`, which
is spawned and whose errors are logged, so that a plugin whose `run` has given
up is started all the same. Zenoh's `zerror!` adds the place in the source to
the texts of the errors of `start`.

The transport is opened by a sequence of calls to the operating system, each
followed by a `?`: the first one that fails ends the sequence. The system is an
oracle that answers a call by what has been called before.

## Main definitions

* `LcmTransportConfig`: What a transport is opened with.
* `SocketCall`, `Os`: The calls, and the answers to them.
* `tryCalls`: Calls one after another, up to the first that fails.
* `LcmTransportConfig.socketCalls`, `openTransport`: Opening a transport.
* `openUrl`: The same from the text of a URL.
* `LcmPlugin.start`: Reading the configuration.
* `LcmPlugin.run`: Starting the two tasks.
-/

namespace LcmBridge

/-- Default fragment reassembly timeout, one second. -/
def defaultFragmentTimeout : Duration := 1000000000

/-- The configuration of a transport. -/
structure LcmTransportConfig where
  lcmUrl : LcmUrl
  networkInterface : Option Ipv4Addr
  fragmentMtu : Nat
  fragmentTimeout : Duration
  maxMessageSize : Nat

def LcmTransportConfig.default : LcmTransportConfig where
  lcmUrl := LcmUrl.default
  networkInterface := none
  fragmentMtu := defaultFragmentMtu
  fragmentTimeout := defaultFragmentTimeout
  maxMessageSize := 4 * 1024 * 1024

/-- The address `0.0.0.0`. -/
def Ipv4Addr.unspecified : Ipv4Addr := ⟨0, 0, 0, 0⟩

/-- The calls to the operating system, with their arguments. `fromStd` hands
    the socket over to the runtime. -/
inductive SocketCall where
  | socket
  | setReuseAddress (on : Bool)
  | setReusePort (on : Bool)
  | setNonblocking (on : Bool)
  | bind (ip : Ipv4Addr) (port : UInt16)
  | setRecvBufferSize (size : Nat)
  | setMulticastTtl (ttl : UInt32)
  | setMulticastLoop (on : Bool)
  | joinMulticast (group interface : Ipv4Addr)
  | fromStd
  deriving DecidableEq, Repr

/-- The answers of the operating system: the error of a call, if it fails, by
    the calls that were made before. -/
abbrev Os : Type := List SocketCall → SocketCall → Option IoError

/-- Make the calls one after another, up to the first that fails. Returns those
    made, after the ones made before. -/
def tryCalls (os : Os) (made : List SocketCall) :
    List SocketCall → List SocketCall × Except IoError Unit
  | [] => (made, .ok ())
  | call :: calls =>
      match os made call with
      | some err => (made ++ [call], .error err)
      | none => tryCalls os (made ++ [call]) calls

/-- The calls that open a transport. -/
def LcmTransportConfig.socketCalls (config : LcmTransportConfig) : List SocketCall :=
  let interface := config.networkInterface.getD .unspecified
  [.socket, .setReuseAddress true, .setReusePort true, .setNonblocking true,
      .bind .unspecified config.lcmUrl.port]
    -- Set the receive buffer size if specified.
    ++ (config.lcmUrl.recvBufSize.map (fun size => .setRecvBufferSize size.val)).toList
    -- Loopback is on: loop prevention is done by sequence numbers.
    ++ [.setMulticastTtl config.lcmUrl.ttl, .setMulticastLoop true,
      .joinMulticast config.lcmUrl.multicastGroup interface, .fromStd]

/-- An open transport: its state, and the multicast address it sends to. -/
structure OpenTransport where
  transport : LcmTransport
  multicastAddr : Ipv4Addr × UInt16
  deriving DecidableEq, Repr

/-- Create a transport with full configuration. -/
def openTransport (os : Os) (config : LcmTransportConfig) :
    List SocketCall × Except IoError OpenTransport :=
  match tryCalls os [] config.socketCalls with
  | (made, .error err) => (made, .error err)
  | (made, .ok ()) =>
      (made, .ok ⟨LcmTransport.new config.fragmentMtu,
        (config.lcmUrl.multicastGroup, config.lcmUrl.port)⟩)

/-- Create a transport from a URL string. -/
def openUrl (os : Os) (url : String) : List SocketCall × Except IoError OpenTransport :=
  match LcmUrl.parse url with
  | .error e => ([], .error (.invalidInput e))
  | .ok lcmUrl => openTransport os { LcmTransportConfig.default with lcmUrl }

namespace LcmPlugin

/-- Read the configuration that the runtime has for the plugin, if it has one.
    `display` is the text of an error. -/
def start (new : String → Except String Regex) (display : DeError → String) (name : String)
    (pluginConf : Option Json) : Except String Config :=
  match pluginConf with
  | none => .error ("Plugin `" ++ name ++ "`: missing config")
  | some conf =>
      (deserializeConfig new conf).mapError (fun e =>
        "Plugin `" ++ name ++ "` configuration error: " ++ display e)

/-- Why `run` has returned before it has started the tasks. -/
inductive StartError where
  | session (message : String)
  | invalidUrl (url message : String)
  | transport (err : IoError)
  deriving DecidableEq, Repr

/-- Start the two tasks on a transport. `session` is the result of opening the
    Zenoh session. Returns the calls made and the bridge as it starts. -/
def run (session : Except String Unit) (os : Os) (localAddr : SocketAddr) (config : Config) :
    List SocketCall × Except StartError Bridge :=
  match session with
  | .error e => ([], .error (.session e))
  | .ok () =>
      match LcmUrl.parse config.lcmUrl with
      | .error e => ([], .error (.invalidUrl config.lcmUrl e))
      | .ok lcmUrl =>
          -- An interface that is no address counts as none.
          let interface := config.networkInterface.bind (fun iface => (parseIpv4 iface).toOption)
          let transportConfig := { LcmTransportConfig.default with
            lcmUrl
            networkInterface := interface
            maxMessageSize := config.maxMessageSize }
          match openTransport os transportConfig with
          | (made, .error e) => (made, .error (.transport e))
          | (made, .ok opened) =>
              (made, .ok {
                config := config
                localAddr := localAddr
                transport := opened.transport
                reassembler := FragmentReassembler.new reassemblyTimeout config.maxMessageSize
                sentSequences := ∅
                sender := .idle
                receiver := .receiving
                emitted := [] })

end LcmPlugin

end LcmBridge
