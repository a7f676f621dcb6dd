import CheatEngine.ByteStream

/-!
# Messages between the client and ceserver

Every call of `TCEConnection` that goes over the network writes one request
and reads one reply.  `DispatchCommand` reads a request, calls the API and
writes the reply.  Both sides decide from what they have read how much more
to read, so that one field too many or too few moves every later message.

What the API returns is a parameter of the exchange.
-/

namespace CheatEngine
namespace Network
namespace Framing

open List ByteStream

structure RegionInfo where
  baseaddress : UInt64
  size : UInt64
  protection : UInt32
  type : UInt32
deriving DecidableEq, Repr

structure DebugEvent where
  debugevent : UInt32
  threadid : UInt64
  address : UInt64
deriving DecidableEq, Repr

structure SymbolList where
  isexe : UInt32
  decompressedsize : UInt32
  compressed : List UInt8
  length_lt : compressed.length + 12 < 2 ^ 31

/-- The answers of the API during one command.  A memory read gives `none`
when it returns -1; `mapsline` is what the buffer for the line holds. -/
structure Api where
  result : UInt32
  address : UInt64
  name : List UInt8
  moduleSize : UInt32
  pid : UInt32
  event : DebugEvent
  context : List UInt8
  memory : Option (List UInt8)
  deflated : List UInt8
  regions : Option (List RegionInfo)
  queryResult : UInt8
  region : RegionInfo
  mapsline : List UInt8
  symbols : Option SymbolList
  name_lt : name.length < 2 ^ 31
  context_lt : context.length < 2 ^ 31
  memory_lt : ∀ data ∈ memory, data.length < 2 ^ 31
  deflated_lt : deflated.length < 2 ^ 31
  regions_lt : ∀ list ∈ regions, list.length < 2 ^ 32

structure Server where
  arch : UInt8
  is32bit : Bool
deriving DecidableEq, Repr

/-! ## DispatchCommand -/

def versionstring : List UInt8 :=
  [67, 72, 69, 65, 84, 69, 78, 71, 73, 78, 69, 32, 78, 101, 116, 119, 111,
    114, 107, 32, 50, 46, 48]

def writeRegionInfo (region : RegionInfo) : List UInt8 :=
  writeQWord region.baseaddress ++ writeQWord region.size ++
    writeDWord region.protection ++ writeDWord region.type

def writeDebugEvent (event : DebugEvent) : List UInt8 :=
  writeDWord event.debugevent ++ writeQWord event.threadid ++
    writeQWord event.address

def writeQueryOutput (api : Api) : List UInt8 :=
  writeByte api.queryResult ++ writeDWord api.region.protection ++
    writeDWord api.region.type ++ writeQWord api.region.baseaddress ++
    writeQWord api.region.size

def moduleReply (api : Api) : List UInt8 :=
  if api.result ≠ 0 then
    writeDWord api.result ++ writeQWord api.address ++
      writeDWord api.moduleSize ++
      writeDWord (UInt32.ofNat api.name.length) ++ api.name
  else
    writeDWord 0 ++ writeQWord 0 ++ writeDWord 0 ++ writeDWord 0

def processReply (api : Api) : List UInt8 :=
  if api.result ≠ 0 then
    writeDWord api.result ++ writeDWord api.pid ++
      writeDWord (UInt32.ofNat api.name.length) ++ api.name
  else
    writeDWord 0 ++ writeDWord 0 ++ writeDWord 0

def contextReply (api : Api) : List UInt8 :=
  if api.result ≠ 0 then
    writeDWord api.result ++
      writeDWord (UInt32.ofNat api.context.length) ++ api.context
  else
    writeDWord 0

def eventReply (api : Api) : List UInt8 :=
  if api.result ≠ 0 then
    writeDWord api.result ++ writeDebugEvent api.event
  else
    writeDWord 0

/-- With -1 bytes read, one byte less than the count itself is sent; the
compressor would run over the whole address space. -/
def readReply (api : Api) (compress : UInt8) : List UInt8 :=
  match api.memory with
  | none => if compress = 0 then (writeDWord 0xffffffff).take 3 else []
  | some data =>
    if compress = 0 then
      writeDWord (UInt32.ofNat data.length) ++ data
    else
      writeDWord (UInt32.ofNat data.length) ++
        writeDWord (UInt32.ofNat api.deflated.length) ++ api.deflated

def queryFullReply (api : Api) : List UInt8 :=
  match api.regions with
  | none => []
  | some regions =>
    writeDWord (UInt32.ofNat regions.length) ++
      regions.flatMap writeRegionInfo

/-- A 32-bit server answers a high address without the line of the maps
file. -/
def regionInfoReply (server : Server) (api : Api) (baseaddress : UInt64) :
    List UInt8 :=
  if server.is32bit ∧ baseaddress > 0xffffffff then
    writeQueryOutput { api with queryResult := 0 }
  else
    writeQueryOutput api ++ writeByte (UInt8.ofNat api.mapsline.length) ++
      api.mapsline.take (api.mapsline.length % 256)

def queryReply (server : Server) (api : Api) (baseaddress : UInt64) :
    List UInt8 :=
  if server.is32bit ∧ baseaddress > 0xffffffff then
    writeQueryOutput { api with queryResult := 0 }
  else
    writeQueryOutput api

/-- Nothing is received for an empty path, which counts as an error; the
socket is closed. -/
def symbolReply (api : Api) (symbolpathsize : UInt32) : List UInt8 :=
  if symbolpathsize = 0 then
    []
  else
    match api.symbols with
    | none => writeQWord 0
    | some list =>
      writeDWord list.isexe ++
        writeDWord (UInt32.ofNat (list.compressed.length + 12)) ++
        writeDWord list.decompressedsize ++ list.compressed

/-- A record of fixed size is read, and the reply does not depend on it. -/
def dispatchFixed (size : ℕ) (reply : List UInt8) : Reader (List UInt8) := do
  let _ ← readBuffer size
  return reply

def dispatchRead (api : Api) : Reader (List UInt8) := do
  let _ ← readDWord
  let _ ← readQWord
  let _ ← readDWord
  let compress ← readByte
  return readReply api compress

/-- The size is an `int32_t`; nothing is received for a negative one, which
counts as an error. -/
def dispatchWrite (api : Api) : Reader (List UInt8) := do
  let _ ← readDWord
  let _ ← readQWord
  let size ← readDWord
  if size.toNat < 2 ^ 31 then
    let _ ← readBuffer size.toNat
    return writeDWord (if size = 0 then 0 else api.result)
  else
    return []

def dispatchQuery (reply : UInt64 → List UInt8) : Reader (List UInt8) := do
  let _ ← readDWord
  let baseaddress ← readQWord
  return reply baseaddress

def dispatchSymbols (api : Api) : Reader (List UInt8) := do
  let symbolpathsize ← readDWord
  let _ ← readBuffer symbolpathsize.toNat
  return symbolReply api symbolpathsize

/-- Only as many bytes of the path are received as its length field has. -/
def dispatchLoadModule (api : Api) : Reader (List UInt8) := do
  let _ ← readBuffer (4 + 4)
  let _ ← readBuffer 4
  return writeDWord api.result

def dispatch (server : Server) (api : Api) : ℕ → Reader (List UInt8)
  | 0 => return writeDWord 1 ++
      writeByte (UInt8.ofNat versionstring.length) ++ versionstring
  | 3 => dispatchFixed 4 (writeDWord api.result)
  | 4 => dispatchFixed (4 + 4) (writeDWord api.result)
  | 5 => dispatchFixed 4 (processReply api)
  | 6 => dispatchFixed 4 (processReply api)
  | 7 => dispatchFixed 4 (writeDWord 1)
  | 8 => dispatchQuery (queryReply server api)
  | 9 => dispatchRead api
  | 10 => dispatchWrite api
  | 11 => dispatchFixed 4 (writeDWord api.result)
  | 13 => dispatchFixed (4 + 4) (eventReply api)
  | 14 => dispatchFixed (4 + 4 + 4) (writeDWord api.result)
  | 15 => dispatchFixed (4 + 4 + 4 + 8 + 4 + 4) (writeDWord api.result)
  | 16 => dispatchFixed (4 + 4 + 4 + 4) (writeDWord api.result)
  | 17 => dispatchFixed (4 + 4) (writeDWord api.result)
  | 18 => dispatchFixed (4 + 4) (writeDWord api.result)
  | 19 => dispatchFixed (4 + 4 + 4) (contextReply api)
  | 21 => return writeByte server.arch
  | 22 => dispatchFixed 4 (moduleReply api)
  | 23 => dispatchFixed 4 (moduleReply api)
  | 24 => dispatchSymbols api
  | 25 => dispatchFixed 4 (writeDWord api.result)
  | 26 => dispatchFixed (4 + 8 + 4) (writeQWord api.address)
  | 27 => dispatchFixed (4 + 8 + 4) (writeDWord api.result)
  | 28 => dispatchFixed (4 + 8 + 8) (writeDWord api.result)
  | 29 => dispatchLoadModule api
  | 30 => dispatchFixed (4 + 4) (writeDWord api.result)
  | 31 => dispatchFixed (4 + 1) (queryFullReply api)
  | 32 => dispatchQuery (regionInfoReply server api)
  | _ => return []

/-- `CMD_CLOSECONNECTION` and `CMD_TERMINATESERVER`; the server exits behind
the second one. -/
def closesSocket (command : ℕ) : Bool :=
  command = 1 || command = 2

structure Served where
  reply : List UInt8
  closed : Bool
deriving DecidableEq, Repr

def DispatchCommand (server : Server) (api : Api) : Reader Served := do
  let command ← readByte
  if closesSocket command.toNat then
    return ⟨[], true⟩
  else
    let reply ← dispatch server api command.toNat
    return ⟨reply, false⟩

/-! ## The client -/

/-- The calls of `TCEConnection` that use the network.  A path or a buffer
comes with the bound of its type.  `memory` is what lies in the memory of the
client from the address of the variable that points to the message on. -/
inductive Request
  | getVersion
  | getArchitecture
  | terminateServer
  | closeHandle (handle : UInt32)
  | module32Next (isfirst : Bool) (hSnapshot : UInt32)
  | process32Next (isfirst : Bool) (hSnapshot : UInt32)
  | createToolhelp32Snapshot (dwFlags th32ProcessID : UInt32)
  | readProcessMemory (hProcess : UInt32) (lpBaseAddress : UInt64)
      (nSize : UInt32) (networkcompression : UInt8)
  | writeProcessMemory (hProcess : UInt32) (lpBaseAddress : UInt64)
      (buffer : List UInt8) (hsize : buffer.length < 2 ^ 32)
  | createRemoteThread (hProcess : UInt32)
      (lpStartAddress lpParameter : UInt64)
  | virtualAllocEx (hProcess : UInt32) (lpAddress : UInt64) (dwSize : UInt32)
  | virtualFreeEx (hProcess : UInt32) (lpAddress : UInt64) (dwSize : UInt32)
  | virtualQueryExStartCache (hProcess : UInt32) (flags : UInt8)
  | virtualQueryEx (hProcess : UInt32) (lpAddress : UInt64)
  | getRegionInfo (hProcess : UInt32) (lpAddress : UInt64)
  | openProcess (dwProcessId : UInt32)
  | startDebug (hProcess : UInt32)
  | continueDebugEvent (hProcess threadid continuemethod : UInt32)
  | waitForDebugEvent (hProcess timeout : UInt32)
  | setBreakpoint (hProcess threadid debugregister : UInt32)
      (address : UInt64) (bptype bpsize : UInt32)
  | removeBreakpoint (hProcess threadid debugregister : UInt32)
      (wasWatchpoint : Bool)
  | allocateAndGetContext (hProcess threadid : UInt32)
  | enumSymbolsFromFile (modulepath : List UInt8)
      (hlength : modulepath.length < 2 ^ 31)
  | loadModule (hProcess : UInt32) (modulepath memory : List UInt8)
  | loadExtension (hProcess : UInt32)
  | speedhackSetSpeed (hProcess : UInt32) (speed : UInt32)

def handleOf (handle : UInt32) : List UInt8 :=
  writeDWord (handle &&& 0xffffff)

/-- `[vdso]`, whose symbols the client looks up itself. -/
def vdso : List UInt8 := [91, 118, 100, 115, 111, 93]

def compression (nSize : UInt32) (networkcompression : UInt8) : UInt8 :=
  if nSize > 128 then networkcompression else 0

/-- `send` is given the size as an `integer`, and sends nothing when that is
not positive. -/
def sized (message : List UInt8) : Option (List UInt8) :=
  if 0 < message.length % 2 ^ 32 ∧ message.length % 2 ^ 32 < 2 ^ 31 then
    some (message.take (message.length % 2 ^ 32))
  else
    none

namespace Request

/-- What a call gives to `send`, if anything. -/
def message : Request → Option (List UInt8)
  | getVersion => some (writeByte 0)
  | getArchitecture => some (writeByte 21)
  | terminateServer => some (writeByte 2)
  | closeHandle handle => some (writeByte 7 ++ handleOf handle)
  | module32Next isfirst hSnapshot =>
    some (writeByte (if isfirst then 22 else 23) ++ handleOf hSnapshot)
  | process32Next isfirst hSnapshot =>
    some (writeByte (if isfirst then 5 else 6) ++ handleOf hSnapshot)
  | createToolhelp32Snapshot dwFlags th32ProcessID =>
    some (writeByte 4 ++ (writeDWord dwFlags ++ writeDWord th32ProcessID))
  | readProcessMemory hProcess lpBaseAddress nSize networkcompression =>
    some (writeByte 9 ++ (writeDWord hProcess ++
      (writeQWord lpBaseAddress ++ (writeDWord nSize ++
        writeByte (compression nSize networkcompression)))))
  | writeProcessMemory hProcess lpBaseAddress buffer _ =>
    sized (writeByte 10 ++ (handleOf hProcess ++
      (writeQWord lpBaseAddress ++
        (writeDWord (UInt32.ofNat buffer.length) ++ buffer))))
  | createRemoteThread hProcess lpStartAddress lpParameter =>
    some (writeByte 28 ++ (handleOf hProcess ++
      (writeQWord lpStartAddress ++ writeQWord lpParameter)))
  | virtualAllocEx hProcess lpAddress dwSize =>
    some (writeByte 26 ++ (handleOf hProcess ++
      (writeQWord lpAddress ++ writeDWord dwSize)))
  | virtualFreeEx hProcess lpAddress dwSize =>
    some (writeByte 27 ++ (handleOf hProcess ++
      (writeQWord lpAddress ++ writeDWord dwSize)))
  | virtualQueryExStartCache hProcess flags =>
    some (writeByte 31 ++ (handleOf hProcess ++ writeByte flags))
  | virtualQueryEx hProcess lpAddress =>
    some (writeByte 8 ++ (handleOf hProcess ++ writeQWord lpAddress))
  | getRegionInfo hProcess lpAddress =>
    some (writeByte 32 ++ (handleOf hProcess ++ writeQWord lpAddress))
  | openProcess dwProcessId => some (writeByte 3 ++ writeDWord dwProcessId)
  | startDebug hProcess => some (writeByte 11 ++ handleOf hProcess)
  | continueDebugEvent hProcess threadid continuemethod =>
    some (writeByte 14 ++ (handleOf hProcess ++
      (writeDWord threadid ++ writeDWord continuemethod)))
  | waitForDebugEvent hProcess timeout =>
    some (writeByte 13 ++ (handleOf hProcess ++ writeDWord timeout))
  | setBreakpoint hProcess threadid debugregister address bptype bpsize =>
    some (writeByte 15 ++ (handleOf hProcess ++ (writeDWord threadid ++
      (writeDWord debugregister ++ (writeQWord address ++
        (writeDWord bptype ++ writeDWord bpsize))))))
  | removeBreakpoint hProcess threadid debugregister wasWatchpoint =>
    some (writeByte 16 ++ (handleOf hProcess ++ (writeDWord threadid ++
      (writeDWord debugregister ++
        writeDWord (if wasWatchpoint then 1 else 0)))))
  | allocateAndGetContext hProcess threadid =>
    some (writeByte 19 ++ (handleOf hProcess ++
      (writeDWord threadid ++ writeDWord 0)))
  | enumSymbolsFromFile modulepath _ =>
    if modulepath = vdso then
      none
    else
      sized (writeByte 24 ++
        (writeDWord (UInt32.ofNat modulepath.length) ++ modulepath))
  | loadModule _ modulepath memory =>
    some (memory.take (9 + modulepath.length))
  | loadExtension hProcess => some (writeByte 25 ++ handleOf hProcess)
  | speedhackSetSpeed hProcess speed =>
    some (writeByte 30 ++ (handleOf hProcess ++ writeDWord speed))

end Request

/-- `receive` is given the size as an `integer`. -/
def receive (size : ℕ) : Reader (List UInt8) :=
  if size < 2 ^ 31 then readBuffer size else return []

def receiveInt : Reader Unit := do
  let _ ← readDWord
  return ()

def receiveModule : Reader Unit := do
  let result ← readDWord
  let _ ← readQWord
  let _ ← readDWord
  let stringlength ← readDWord
  if result ≠ 0 then
    let _ ← receive stringlength.toNat
    return ()
  else
    return ()

def receiveProcess : Reader Unit := do
  let result ← readDWord
  let _ ← readDWord
  let stringlength ← readDWord
  if result ≠ 0 then
    let _ ← receive stringlength.toNat
    return ()
  else
    return ()

def receiveMemory (compressed : UInt8) : Reader Unit := do
  if compressed ≠ 0 then
    let _ ← readDWord
    let compressedsize ← readDWord
    let _ ← receive compressedsize.toNat
    return ()
  else
    let bytesread ← readDWord
    let _ ← receive bytesread.toNat
    return ()

/-- The loop runs to `count - 1`, an unsigned number. -/
def receiveRegions : Reader Unit := do
  let count ← readDWord
  let _ ← readMany (readBuffer (8 + 8 + 4 + 4)) ((count - 1).toNat + 1)
  return ()

def receiveQuery : Reader Unit := do
  let _ ← readBuffer (1 + 4 + 4 + 8 + 8)
  return ()

def receiveRegionInfo : Reader Unit := do
  let _ ← readBuffer (1 + 4 + 4 + 8 + 8)
  let mapslinesize ← readByte
  let _ ← readBuffer mapslinesize.toNat
  return ()

def receiveEvent : Reader Unit := do
  let r ← readDWord
  if r ≠ 0 then
    let _ ← readBuffer (4 + 8 + 8)
    return ()
  else
    return ()

def receiveContext : Reader Unit := do
  let r ← readDWord
  if r ≠ 0 then
    let contextsize ← readDWord
    let _ ← receive contextsize.toNat
    return ()
  else
    return ()

def receiveVersion : Reader Unit := do
  let _ ← readDWord
  let stringsize ← readByte
  let _ ← readBuffer stringsize.toNat
  return ()

def receiveSymbols : Reader Unit := do
  let _ ← readDWord
  let compressedsize ← readDWord
  if compressedsize > 0 then
    let _ ← readDWord
    let _ ← receive (compressedsize - 12).toNat
    return ()
  else
    return ()

def Request.receiveReply : Request → Reader Unit
  | .getVersion => receiveVersion
  | .getArchitecture => do
      let _ ← readByte
      return ()
  | .terminateServer => return ()
  | .module32Next _ _ => receiveModule
  | .process32Next _ _ => receiveProcess
  | .readProcessMemory _ _ nSize networkcompression =>
    receiveMemory (compression nSize networkcompression)
  | .virtualAllocEx _ _ _ => do
      let _ ← readQWord
      return ()
  | .virtualQueryExStartCache _ _ => receiveRegions
  | .virtualQueryEx _ _ => receiveQuery
  | .getRegionInfo _ _ => receiveRegionInfo
  | .waitForDebugEvent _ _ => receiveEvent
  | .allocateAndGetContext _ _ => receiveContext
  | .enumSymbolsFromFile _ _ => receiveSymbols
  | _ => receiveInt

/-- One call with the answers of the API.  `fpsend` is asked for the whole
size again after it has taken a part of the message; `excess` is what it then
takes from behind the message. -/
structure Exchange where
  request : Request
  api : Api
  excess : List UInt8

structure Connection where
  toServer : List UInt8
  toClient : List UInt8
  closed : Bool
deriving DecidableEq, Repr

def Connection.atBoundary (closed : Bool) : Connection := ⟨[], [], closed⟩

def Connection.idle : Connection := .atBoundary false

/-- The client sends its message, the server handles one command, and the
client reads its reply.  Nothing is sent on a closed socket. -/
def exchange (server : Server) (connection : Connection)
    (call : Exchange) : Except String Connection :=
  match call.request.message with
  | none => .ok connection
  | some message =>
    if connection.closed then
      .error "Connection closed"
    else do
      let (served, toServer) ← DispatchCommand server call.api
        (connection.toServer ++ (message ++ call.excess))
      let (_, toClient) ← call.request.receiveReply
        (connection.toClient ++ served.reply)
      return ⟨toServer, toClient, served.closed⟩

def StaysFramed (server : Server) : Connection → List Exchange → Prop
  | _, [] => True
  | connection, call :: rest =>
    ∃ closed, exchange server connection call = .ok (.atBoundary closed) ∧
      StaysFramed server (.atBoundary closed) rest

/-! ## What the server reads -/

theorem reads_dispatchFixed {arguments : List UInt8} {size : ℕ}
    (reply : List UInt8) (hlength : arguments.length = size) :
    Reads (dispatchFixed size reply) arguments reply := by
  subst hlength
  exact (reads_readBuffer arguments).bind_pure

theorem reads_dispatchQuery (handle : UInt32) (baseaddress : UInt64)
    (reply : UInt64 → List UInt8) :
    Reads (dispatchQuery reply)
      (writeDWord handle ++ writeQWord baseaddress) (reply baseaddress) :=
  (reads_readDWord handle).bind (reads_readQWord baseaddress).bind_pure

variable {block : List UInt8} {server : Server} {reply message : List UInt8}
  {request : Request} (api : Api)

theorem reads_dispatchRead (handle : UInt32) (address : UInt64)
    (size : UInt32) (compress : UInt8) :
    Reads (dispatchRead api)
      (writeDWord handle ++ (writeQWord address ++ (writeDWord size ++
        writeByte compress)))
      (readReply api compress) :=
  (reads_readDWord handle).bind ((reads_readQWord address).bind
    ((reads_readDWord size).bind (reads_readByte compress).bind_pure))

theorem toNat_ofNat_length (hlength : block.length < 2 ^ 32) :
    (UInt32.ofNat block.length).toNat = block.length :=
  UInt32.toNat_ofNat_of_lt' hlength

theorem reads_dispatchWrite (handle : UInt32) (address : UInt64)
    {buffer : List UInt8} (hlength : buffer.length < 2 ^ 31) :
    Reads (dispatchWrite api)
      (writeDWord handle ++ (writeQWord address ++
        (writeDWord (UInt32.ofNat buffer.length) ++ buffer)))
      (writeDWord (if UInt32.ofNat buffer.length = 0 then 0
        else api.result)) := by
  have hsize : (UInt32.ofNat buffer.length).toNat = buffer.length :=
    toNat_ofNat_length (by omega)
  refine (reads_readDWord handle).bind ((reads_readQWord address).bind
    ((reads_readDWord (UInt32.ofNat buffer.length)).bind ?_))
  rw [hsize, if_pos hlength]
  exact (reads_readBuffer buffer).bind_pure

theorem reads_dispatchSymbols {path : List UInt8}
    (hlength : path.length < 2 ^ 32) :
    Reads (dispatchSymbols api)
      (writeDWord (UInt32.ofNat path.length) ++ path)
      (symbolReply api (UInt32.ofNat path.length)) := by
  refine (reads_readDWord (UInt32.ofNat path.length)).bind ?_
  rw [toNat_ofNat_length hlength]
  exact (reads_readBuffer path).bind_pure

theorem reads_DispatchCommand {api : Api} (command : UInt8)
    (hopen : closesSocket command.toNat = false) {arguments : List UInt8}
    (hdispatch : Reads (dispatch server api command.toNat) arguments reply) :
    Reads (DispatchCommand server api) (writeByte command ++ arguments)
      ⟨reply, false⟩ := by
  refine (reads_readByte command).bind ?_
  rw [hopen]
  exact hdispatch.bind_pure

theorem reads_DispatchCommand_nil {api : Api} (command : UInt8)
    (hopen : closesSocket command.toNat = false)
    (hdispatch : Reads (dispatch server api command.toNat) [] reply) :
    Reads (DispatchCommand server api) (writeByte command)
      ⟨reply, false⟩ := by
  have hread := reads_DispatchCommand command hopen hdispatch
  rw [append_nil] at hread
  exact hread

theorem reads_DispatchCommand_terminate (api : Api) :
    Reads (DispatchCommand server api) (writeByte 2) ⟨[], true⟩ := by
  refine (reads_readByte 2).bind_nil ?_
  rw [if_pos (by decide)]
  exact reads_pure _

def Request.terminates : Request → Bool
  | .terminateServer => true
  | _ => false

def serverReply (server : Server) (api : Api) : Request → List UInt8
  | .getVersion => writeDWord 1 ++
      writeByte (UInt8.ofNat versionstring.length) ++ versionstring
  | .getArchitecture => writeByte server.arch
  | .terminateServer => []
  | .closeHandle _ => writeDWord 1
  | .module32Next _ _ => moduleReply api
  | .process32Next _ _ => processReply api
  | .readProcessMemory _ _ nSize networkcompression =>
    readReply api (compression nSize networkcompression)
  | .writeProcessMemory _ _ buffer _ =>
    writeDWord (if UInt32.ofNat buffer.length = 0 then 0 else api.result)
  | .virtualAllocEx _ _ _ => writeQWord api.address
  | .virtualQueryExStartCache _ _ => queryFullReply api
  | .virtualQueryEx _ lpAddress => queryReply server api lpAddress
  | .getRegionInfo _ lpAddress => regionInfoReply server api lpAddress
  | .waitForDebugEvent _ _ => eventReply api
  | .allocateAndGetContext _ _ => contextReply api
  | .enumSymbolsFromFile modulepath _ =>
    symbolReply api (UInt32.ofNat modulepath.length)
  | _ => writeDWord api.result

/-- The calls whose message is sent as it was built: all but `loadModule`,
which sends the memory of a pointer variable, and writes so large that the
size of the message wraps around. -/
def Request.Whole : Request → Prop
  | .loadModule _ _ _ => False
  | .writeProcessMemory _ _ buffer _ => buffer.length + 17 < 2 ^ 32
  | _ => True

theorem handleOf_length (handle : UInt32) : (handleOf handle).length = 4 :=
  writeDWord_length _

theorem sized_eq_some {sent : List UInt8} (hlength : message.length < 2 ^ 32)
    (hsent : sized message = some sent) :
    sent = message ∧ message.length < 2 ^ 31 := by
  unfold sized at hsent
  rw [Nat.mod_eq_of_lt hlength] at hsent
  split_ifs at hsent with hbounds
  rw [take_length] at hsent
  exact ⟨(Option.some.inj hsent).symm, hbounds.2⟩

theorem reads_message (server : Server) (api : Api) (hwhole : request.Whole)
    (hmessage : request.message = some message) :
    Reads (DispatchCommand server api) message
      ⟨serverReply server api request, request.terminates⟩ := by
  cases request with
  | getVersion =>
    cases hmessage
    exact reads_DispatchCommand_nil 0 rfl (reads_pure _)
  | getArchitecture =>
    cases hmessage
    exact reads_DispatchCommand_nil 21 rfl (reads_pure _)
  | terminateServer =>
    cases hmessage
    exact reads_DispatchCommand_terminate api
  | closeHandle handle =>
    cases hmessage
    exact reads_DispatchCommand 7 rfl
      (reads_dispatchFixed _ (handleOf_length handle))
  | module32Next isfirst hSnapshot =>
    cases hmessage
    cases isfirst with
    | true =>
      exact reads_DispatchCommand 22 rfl
        (reads_dispatchFixed _ (handleOf_length hSnapshot))
    | false =>
      exact reads_DispatchCommand 23 rfl
        (reads_dispatchFixed _ (handleOf_length hSnapshot))
  | process32Next isfirst hSnapshot =>
    cases hmessage
    cases isfirst with
    | true =>
      exact reads_DispatchCommand 5 rfl
        (reads_dispatchFixed _ (handleOf_length hSnapshot))
    | false =>
      exact reads_DispatchCommand 6 rfl
        (reads_dispatchFixed _ (handleOf_length hSnapshot))
  | createToolhelp32Snapshot dwFlags th32ProcessID =>
    cases hmessage
    exact reads_DispatchCommand 4 rfl (reads_dispatchFixed _ (by simp))
  | readProcessMemory hProcess lpBaseAddress nSize networkcompression =>
    cases hmessage
    exact reads_DispatchCommand 9 rfl (reads_dispatchRead api hProcess
      lpBaseAddress nSize (compression nSize networkcompression))
  | writeProcessMemory hProcess lpBaseAddress buffer hsize =>
    have hlength : (writeByte 10 ++ (handleOf hProcess ++
        (writeQWord lpBaseAddress ++
          (writeDWord (UInt32.ofNat buffer.length) ++ buffer)))).length =
        buffer.length + 17 := by
      simp [handleOf_length]
      omega
    have hwhole : buffer.length + 17 < 2 ^ 32 := hwhole
    obtain ⟨rfl, hbound⟩ :=
      sized_eq_some (hlength.trans_lt hwhole) hmessage
    rw [hlength] at hbound
    exact reads_DispatchCommand 10 rfl
      (reads_dispatchWrite api _ lpBaseAddress (by omega))
  | createRemoteThread hProcess lpStartAddress lpParameter =>
    cases hmessage
    exact reads_DispatchCommand 28 rfl
      (reads_dispatchFixed _ (by simp [handleOf_length]))
  | virtualAllocEx hProcess lpAddress dwSize =>
    cases hmessage
    exact reads_DispatchCommand 26 rfl
      (reads_dispatchFixed _ (by simp [handleOf_length]))
  | virtualFreeEx hProcess lpAddress dwSize =>
    cases hmessage
    exact reads_DispatchCommand 27 rfl
      (reads_dispatchFixed _ (by simp [handleOf_length]))
  | virtualQueryExStartCache hProcess flags =>
    cases hmessage
    exact reads_DispatchCommand 31 rfl
      (reads_dispatchFixed _ (by simp [handleOf_length]))
  | virtualQueryEx hProcess lpAddress =>
    cases hmessage
    exact reads_DispatchCommand 8 rfl
      (reads_dispatchQuery _ lpAddress (queryReply server api))
  | getRegionInfo hProcess lpAddress =>
    cases hmessage
    exact reads_DispatchCommand 32 rfl
      (reads_dispatchQuery _ lpAddress (regionInfoReply server api))
  | openProcess dwProcessId =>
    cases hmessage
    exact reads_DispatchCommand 3 rfl (reads_dispatchFixed _ (by simp))
  | startDebug hProcess =>
    cases hmessage
    exact reads_DispatchCommand 11 rfl
      (reads_dispatchFixed _ (handleOf_length hProcess))
  | continueDebugEvent hProcess threadid continuemethod =>
    cases hmessage
    exact reads_DispatchCommand 14 rfl
      (reads_dispatchFixed _ (by simp [handleOf_length]))
  | waitForDebugEvent hProcess timeout =>
    cases hmessage
    exact reads_DispatchCommand 13 rfl
      (reads_dispatchFixed _ (by simp [handleOf_length]))
  | setBreakpoint hProcess threadid debugregister address bptype bpsize =>
    cases hmessage
    exact reads_DispatchCommand 15 rfl
      (reads_dispatchFixed _ (by simp [handleOf_length]))
  | removeBreakpoint hProcess threadid debugregister wasWatchpoint =>
    cases hmessage
    exact reads_DispatchCommand 16 rfl
      (reads_dispatchFixed _ (by simp [handleOf_length]))
  | allocateAndGetContext hProcess threadid =>
    cases hmessage
    exact reads_DispatchCommand 19 rfl
      (reads_dispatchFixed _ (by simp [handleOf_length]))
  | enumSymbolsFromFile modulepath hlength =>
    have hsized : (writeByte 24 ++
        (writeDWord (UInt32.ofNat modulepath.length) ++
          modulepath)).length = modulepath.length + 5 := by
      simp
      omega
    unfold Request.message at hmessage
    simp only at hmessage
    split_ifs at hmessage
    obtain ⟨rfl, -⟩ :=
      sized_eq_some (by rw [hsized]; omega) hmessage
    exact reads_DispatchCommand 24 rfl (reads_dispatchSymbols api (by omega))
  | loadModule hProcess modulepath memory => exact hwhole.elim
  | loadExtension hProcess =>
    cases hmessage
    exact reads_DispatchCommand 25 rfl
      (reads_dispatchFixed _ (handleOf_length hProcess))
  | speedhackSetSpeed hProcess speed =>
    cases hmessage
    exact reads_DispatchCommand 30 rfl
      (reads_dispatchFixed _ (by simp [handleOf_length]))

/-! ## What the client reads -/

/-- The answers after which the server writes what the client reads. -/
def Request.Answerable (server : Server) (api : Api) : Request → Prop
  | .readProcessMemory _ _ _ _ => api.memory.isSome
  | .enumSymbolsFromFile modulepath _ => modulepath ≠ []
  | .getRegionInfo _ lpAddress =>
    ¬(server.is32bit = true ∧ lpAddress > 0xffffffff)
  | .virtualQueryExStartCache _ _ =>
    ∃ regions, api.regions = some regions ∧ regions ≠ []
  | _ => True

theorem reads_receive (hlength : block.length < 2 ^ 31) :
    Reads (receive block.length) block block := by
  unfold receive
  rw [if_pos hlength]
  exact reads_readBuffer block

theorem reads_receive_counted (hlength : block.length < 2 ^ 31) :
    Reads
      (do let _ ← receive (UInt32.ofNat block.length).toNat return ())
      block () := by
  rw [toNat_ofNat_length (by omega)]
  exact (reads_receive hlength).bind_pure

theorem reads_receiveInt (value : UInt32) :
    Reads receiveInt (writeDWord value) () :=
  (reads_readDWord value).bind_pure

theorem reads_receiveModule : Reads receiveModule (moduleReply api) () := by
  unfold moduleReply
  split
  · rename_i hresult
    rw [append_assoc, append_assoc, append_assoc]
    refine (reads_readDWord api.result).bind
      ((reads_readQWord api.address).bind
        ((reads_readDWord api.moduleSize).bind ((reads_readDWord _).bind ?_)))
    rw [if_pos hresult]
    exact reads_receive_counted api.name_lt
  · rw [append_assoc, append_assoc]
    exact (reads_readDWord 0).bind ((reads_readQWord 0).bind
      ((reads_readDWord 0).bind ((reads_readDWord 0).bind_nil
        (reads_pure ()))))

theorem reads_receiveProcess : Reads receiveProcess (processReply api) () := by
  unfold processReply
  split
  · rename_i hresult
    rw [append_assoc, append_assoc]
    refine (reads_readDWord api.result).bind
      ((reads_readDWord api.pid).bind ((reads_readDWord _).bind ?_))
    rw [if_pos hresult]
    exact reads_receive_counted api.name_lt
  · rw [append_assoc]
    exact (reads_readDWord 0).bind ((reads_readDWord 0).bind
      ((reads_readDWord 0).bind_nil (reads_pure ())))

theorem reads_receiveContext : Reads receiveContext (contextReply api) () := by
  unfold contextReply
  split
  · rename_i hresult
    rw [append_assoc]
    refine (reads_readDWord api.result).bind ?_
    rw [if_pos hresult]
    exact (reads_readDWord _).bind (reads_receive_counted api.context_lt)
  · exact (reads_readDWord 0).bind_nil (reads_pure ())

theorem reads_receiveEvent : Reads receiveEvent (eventReply api) () := by
  unfold eventReply
  split
  · rename_i hresult
    refine (reads_readDWord api.result).bind ?_
    rw [if_pos hresult]
    have hlength : (writeDebugEvent api.event).length = 4 + 8 + 8 := by
      simp [writeDebugEvent]
    rw [← hlength]
    exact (reads_readBuffer _).bind_pure
  · exact (reads_readDWord 0).bind_nil (reads_pure ())

theorem reads_receiveMemory {api : Api} {data : List UInt8}
    (hmemory : api.memory = some data) (compress : UInt8) :
    Reads (receiveMemory compress) (readReply api compress) () := by
  unfold receiveMemory readReply
  rw [hmemory]
  by_cases hcompress : compress = 0
  · simp only [hcompress, ne_eq, not_true_eq_false, if_false, if_true]
    exact (reads_readDWord _).bind
      (reads_receive_counted (api.memory_lt data hmemory))
  · simp only [hcompress, ne_eq, not_false_eq_true, if_true, if_false]
    rw [append_assoc]
    exact (reads_readDWord _).bind ((reads_readDWord _).bind
      (reads_receive_counted api.deflated_lt))

theorem writeQueryOutput_length :
    (writeQueryOutput api).length = 1 + 4 + 4 + 8 + 8 := by
  simp [writeQueryOutput]

theorem reads_receiveQuery (server : Server) (api : Api)
    (baseaddress : UInt64) :
    Reads receiveQuery (queryReply server api baseaddress) () := by
  have hlength : (queryReply server api baseaddress).length =
      1 + 4 + 4 + 8 + 8 := by
    unfold queryReply
    split
    · exact writeQueryOutput_length _
    · exact writeQueryOutput_length _
  unfold receiveQuery
  rw [← hlength]
  exact (reads_readBuffer _).bind_pure

theorem reads_receiveRegionInfo {api : Api} {baseaddress : UInt64}
    (hlow : ¬(server.is32bit = true ∧ baseaddress > 0xffffffff)) :
    Reads receiveRegionInfo (regionInfoReply server api baseaddress) () := by
  have hline : (UInt8.ofNat api.mapsline.length).toNat =
      (api.mapsline.take (api.mapsline.length % 256)).length := by
    rw [length_take, min_eq_left (Nat.mod_le _ _)]
    simp
  unfold receiveRegionInfo regionInfoReply
  rw [if_neg hlow, ← writeQueryOutput_length api, append_assoc]
  refine (reads_readBuffer (writeQueryOutput api)).bind
    ((reads_readByte _).bind ?_)
  rw [hline]
  exact (reads_readBuffer _).bind_pure

theorem reads_receiveVersion :
    Reads receiveVersion
      (writeDWord 1 ++ writeByte (UInt8.ofNat versionstring.length) ++
        versionstring) () := by
  rw [append_assoc]
  exact (reads_readDWord 1).bind ((reads_readByte _).bind
    (reads_readBuffer versionstring).bind_pure)

theorem reads_receiveSymbols {api : Api} {size : UInt32} (hsize : size ≠ 0) :
    Reads receiveSymbols (symbolReply api size) () := by
  unfold symbolReply
  rw [if_neg hsize]
  cases hsymbols : api.symbols with
  | none =>
    exact (reads_readDWord 0).bind ((reads_readDWord 0).bind_nil
      (reads_pure ()))
  | some list =>
    have hlength := list.length_lt
    have htotal : (UInt32.ofNat (list.compressed.length + 12)).toNat =
        list.compressed.length + 12 :=
      UInt32.toNat_ofNat_of_lt' (by
        change _ < 2 ^ 32
        omega)
    have hpositive : UInt32.ofNat (list.compressed.length + 12) > 0 := by
      rw [gt_iff_lt, UInt32.lt_iff_toNat_lt, htotal]
      exact Nat.succ_pos _
    have hrest : (UInt32.ofNat (list.compressed.length + 12) -
        12).toNat = list.compressed.length := by
      rw [UInt32.toNat_sub_of_le, htotal]
      · rfl
      · rw [UInt32.le_iff_toNat_le, htotal]
        exact Nat.le_add_left _ _
    simp only [append_assoc]
    refine (reads_readDWord list.isexe).bind ((reads_readDWord _).bind ?_)
    rw [if_pos hpositive, hrest]
    exact (reads_readDWord _).bind (reads_receive (by omega)).bind_pure

theorem writeRegionInfo_length (region : RegionInfo) :
    (writeRegionInfo region).length = 8 + 8 + 4 + 4 := by
  simp [writeRegionInfo]

theorem reads_receiveRegions {api : Api} {regions : List RegionInfo}
    (hregions : api.regions = some regions) (hsome : regions ≠ []) :
    Reads receiveRegions (queryFullReply api) () := by
  have hlength : regions.length < 2 ^ 32 :=
    api.regions_lt regions hregions
  have hpositive : 0 < regions.length := length_pos_iff.mpr hsome
  have htotal : (UInt32.ofNat regions.length).toNat = regions.length :=
    UInt32.toNat_ofNat_of_lt' hlength
  have hcount : (UInt32.ofNat regions.length - 1).toNat + 1 =
      regions.length := by
    rw [UInt32.toNat_sub_of_le, htotal]
    · change regions.length - 1 + 1 = regions.length
      omega
    · rw [UInt32.le_iff_toNat_le, htotal]
      exact hpositive
  have hentry : ∀ region ∈ regions,
      Reads (readBuffer (8 + 8 + 4 + 4)) (writeRegionInfo region)
        (writeRegionInfo region) := by
    intro region _
    rw [← writeRegionInfo_length region]
    exact reads_readBuffer _
  unfold queryFullReply
  rw [hregions]
  refine (reads_readDWord _).bind ?_
  rw [hcount]
  exact (reads_readMany_map regions hentry).bind_pure

theorem reads_reply {api : Api} (hanswerable : request.Answerable server api)
    (hwhole : request.Whole) :
    Reads request.receiveReply (serverReply server api request) () := by
  cases request with
  | getVersion => exact reads_receiveVersion
  | getArchitecture => exact (reads_readByte server.arch).bind_pure
  | terminateServer => exact reads_pure ()
  | module32Next isfirst hSnapshot => exact reads_receiveModule api
  | process32Next isfirst hSnapshot => exact reads_receiveProcess api
  | readProcessMemory hProcess lpBaseAddress nSize networkcompression =>
    obtain ⟨data, hdata⟩ := Option.isSome_iff_exists.mp hanswerable
    exact reads_receiveMemory hdata _
  | virtualAllocEx hProcess lpAddress dwSize =>
    exact (reads_readQWord api.address).bind_pure
  | virtualQueryExStartCache hProcess flags =>
    obtain ⟨regions, hregions, hsome⟩ := hanswerable
    exact reads_receiveRegions hregions hsome
  | virtualQueryEx hProcess lpAddress =>
    exact reads_receiveQuery server api lpAddress
  | getRegionInfo hProcess lpAddress =>
    exact reads_receiveRegionInfo hanswerable
  | waitForDebugEvent hProcess timeout => exact reads_receiveEvent api
  | allocateAndGetContext hProcess threadid =>
    exact reads_receiveContext api
  | enumSymbolsFromFile modulepath hlength =>
    apply reads_receiveSymbols
    intro hzero
    have hvalue : (UInt32.ofNat modulepath.length).toNat =
        modulepath.length := toNat_ofNat_length (by omega)
    rw [hzero] at hvalue
    exact hanswerable (length_eq_zero_iff.mp hvalue.symm)
  | loadModule hProcess modulepath memory => exact hwhole.elim
  | closeHandle handle => exact reads_receiveInt _
  | createToolhelp32Snapshot dwFlags th32ProcessID =>
    exact reads_receiveInt _
  | writeProcessMemory hProcess lpBaseAddress buffer hsize =>
    exact reads_receiveInt _
  | createRemoteThread hProcess lpStartAddress lpParameter =>
    exact reads_receiveInt _
  | virtualFreeEx hProcess lpAddress dwSize => exact reads_receiveInt _
  | openProcess dwProcessId => exact reads_receiveInt _
  | startDebug hProcess => exact reads_receiveInt _
  | continueDebugEvent hProcess threadid continuemethod =>
    exact reads_receiveInt _
  | setBreakpoint hProcess threadid debugregister address bptype bpsize =>
    exact reads_receiveInt _
  | removeBreakpoint hProcess threadid debugregister wasWatchpoint =>
    exact reads_receiveInt _
  | loadExtension hProcess => exact reads_receiveInt _
  | speedhackSetSpeed hProcess speed => exact reads_receiveInt _

def Starves (reader : Reader Unit) (reply : List UInt8) : Prop :=
  ∃ message, reader reply = .error message

theorem starves_of_length_lt {size : ℕ} {next : List UInt8 → Reader Unit}
    (hshort : reply.length < size) :
    Starves (readBuffer size >>= next) reply := by
  refine ⟨"Stream read error", ?_⟩
  have hread : readBuffer size reply = .error "Stream read error" :=
    if_neg (Nat.not_le.mpr hshort)
  change (readBuffer size reply >>= _) = _
  rw [hread]
  rfl

theorem Starves.after_reads {α : Type} {reader : Reader α}
    {next : α → Reader Unit} {rest : List UInt8} {value : α}
    (hreads : Reads reader block value)
    (hstarves : Starves (next value) rest) :
    Starves (reader >>= next) (block ++ rest) := by
  obtain ⟨message, herror⟩ := hstarves
  refine ⟨message, ?_⟩
  change (reader (block ++ rest) >>= _) = _
  rw [hreads rest]
  exact herror

theorem starves_readDWord {next : UInt32 → Reader Unit}
    (hshort : reply.length < 4) :
    Starves (readDWord >>= next) reply := by
  unfold readDWord
  rw [bind_assoc]
  exact starves_of_length_lt hshort

theorem starves_receiveRegions {api : Api}
    (hregions : ¬∃ regions, api.regions = some regions ∧ regions ≠ []) :
    Starves receiveRegions (queryFullReply api) := by
  unfold queryFullReply
  cases hcase : api.regions with
  | none => exact starves_readDWord (Nat.succ_pos 3)
  | some regions =>
    have hnone : regions = [] := by
      by_contra hsome
      exact hregions ⟨regions, hcase, hsome⟩
    subst hnone
    refine Starves.after_reads (reads_readDWord 0) ?_
    generalize ((0 : UInt32) - 1).toNat = last
    rw [readMany, bind_assoc]
    exact starves_of_length_lt (Nat.succ_pos 23)

theorem starves_receiveRegionInfo {api : Api} {baseaddress : UInt64}
    (hhigh : server.is32bit = true ∧ baseaddress > 0xffffffff) :
    Starves receiveRegionInfo (regionInfoReply server api baseaddress) := by
  have hlength := writeQueryOutput_length { api with queryResult := 0 }
  have hline : Starves
      (do let mapslinesize ← readByte
          let _ ← readBuffer mapslinesize.toNat
          return ())
      [] := by
    unfold readByte
    rw [bind_assoc]
    exact starves_of_length_lt (Nat.succ_pos 0)
  unfold regionInfoReply
  rw [if_pos hhigh]
  generalize writeQueryOutput { api with queryResult := 0 } = output
    at hlength ⊢
  have hstarves : Starves receiveRegionInfo (output ++ []) := by
    unfold receiveRegionInfo
    rw [← hlength]
    exact Starves.after_reads (reads_readBuffer output) hline
  rw [append_nil] at hstarves
  exact hstarves

theorem starves_reply {api : Api}
    (hanswerable : ¬request.Answerable server api) :
    Starves request.receiveReply (serverReply server api request) := by
  cases request with
  | readProcessMemory hProcess lpBaseAddress nSize networkcompression =>
    have hmemory : api.memory = none := by
      simpa [Request.Answerable] using hanswerable
    change Starves (receiveMemory _) (readReply api _)
    generalize compression nSize networkcompression = compress
    unfold receiveMemory readReply
    rw [hmemory]
    by_cases hcompress : compress = 0
    · simp only [hcompress, ne_eq, not_true_eq_false, if_false, if_true]
      exact starves_readDWord (by simp)
    · simp only [hcompress, ne_eq, not_false_eq_true, if_true, if_false]
      exact starves_readDWord (Nat.succ_pos 3)
  | enumSymbolsFromFile modulepath hlength =>
    have hempty : modulepath = [] := by
      simpa [Request.Answerable] using hanswerable
    subst hempty
    exact starves_readDWord (Nat.succ_pos 3)
  | getRegionInfo hProcess lpAddress =>
    exact starves_receiveRegionInfo (not_not.mp hanswerable)
  | virtualQueryExStartCache hProcess flags =>
    exact starves_receiveRegions hanswerable
  | _ => exact absurd trivial hanswerable

def Exchange.Meets (server : Server) (call : Exchange) : Prop :=
  ∀ message, call.request.message = some message →
    call.excess = [] ∧ call.request.Answerable server call.api

theorem exchange_eq {call : Exchange} (hwhole : call.request.Whole)
    (hmessage : call.request.message = some message) :
    exchange server .idle call =
      (call.request.receiveReply
        (serverReply server call.api call.request)).map
        fun received =>
          ⟨call.excess, received.2, call.request.terminates⟩ := by
  have hserved := reads_message server call.api hwhole hmessage call.excess
  unfold exchange
  simp only [hmessage, Connection.idle, Connection.atBoundary,
    nil_append, Bool.false_eq_true, if_false]
  rw [hserved]
  change (call.request.receiveReply
    (serverReply server call.api call.request) >>= _) = _
  cases call.request.receiveReply
      (serverReply server call.api call.request) with
  | error reason => rfl
  | ok received => rfl

theorem terminates_of_message_none
    (hnone : request.message = none) : request.terminates = false := by
  cases request with
  | terminateServer => cases hnone
  | _ => rfl

theorem exchange_idle_iff {call : Exchange} (hwhole : call.request.Whole)
    (closed : Bool) :
    exchange server .idle call = .ok (.atBoundary closed) ↔
      call.Meets server ∧ closed = call.request.terminates := by
  cases hmessage : call.request.message with
  | none =>
    rw [terminates_of_message_none hmessage]
    unfold exchange Exchange.Meets
    simp [hmessage, Connection.idle, Connection.atBoundary, eq_comm]
  | some message =>
    rw [exchange_eq hwhole hmessage]
    by_cases hanswerable : call.request.Answerable server call.api
    · have hread := reads_reply hanswerable hwhole []
      rw [append_nil] at hread
      rw [hread]
      simp [Except.map, Exchange.Meets, Connection.atBoundary, hmessage,
        hanswerable, eq_comm]
    · obtain ⟨reason, herror⟩ := starves_reply hanswerable
      rw [herror]
      simp [Except.map, Exchange.Meets, hmessage, hanswerable]

theorem staysFramed_closed (server : Server) (calls : List Exchange) :
    StaysFramed server (.atBoundary true) calls ↔
      ∀ call ∈ calls, call.request.message = none := by
  induction calls with
  | nil => simp [StaysFramed]
  | cons call rest ih =>
    rw [forall_mem_cons, ← ih, StaysFramed]
    unfold exchange
    cases call.request.message with
    | none => simp [Connection.atBoundary]
    | some message => simp [Connection.atBoundary]

/-- Nothing is sent behind the call that ends the server. -/
def NoneAfterTermination (calls : List Exchange) : Prop :=
  calls.Pairwise fun earlier later =>
    earlier.request.terminates = true → later.request.message = none

/-- Over any sequence of calls whose messages are sent whole, both ends are
at a message boundary after every call exactly when every call meets the
condition and none is sent to a server that has ended. -/
theorem staysFramed_iff (server : Server) (calls : List Exchange)
    (hwhole : ∀ call ∈ calls, call.request.Whole) :
    StaysFramed server .idle calls ↔
      (∀ call ∈ calls, call.Meets server) ∧ NoneAfterTermination calls := by
  induction calls with
  | nil => simp [StaysFramed, NoneAfterTermination]
  | cons call rest ih =>
    obtain ⟨hcall, hothers⟩ := forall_mem_cons.mp hwhole
    have hfirst : StaysFramed server .idle (call :: rest) ↔
        call.Meets server ∧
          StaysFramed server (.atBoundary call.request.terminates) rest := by
      simp only [StaysFramed, exchange_idle_iff hcall, and_assoc,
        exists_and_left, exists_eq_left]
    rw [hfirst, forall_mem_cons, and_assoc, NoneAfterTermination,
      pairwise_cons]
    refine and_congr_right fun _ => ?_
    cases hterminates : call.request.terminates with
    | false =>
      rw [← Connection.idle, ih hothers]
      simp [NoneAfterTermination]
    | true =>
      rw [staysFramed_closed]
      constructor
      · intro hsilent
        refine ⟨fun later hlater message hmessage => ?_,
          fun later hlater _ => hsilent later hlater, ?_⟩
        · rw [hsilent later hlater] at hmessage
          cases hmessage
        · exact pairwise_of_forall_mem_list
            fun _ _ later hlater _ => hsilent later hlater
      · rintro ⟨-, hsilent, -⟩ later hlater
        exact hsilent later hlater rfl

def silentApi : Api where
  result := 0
  address := 0
  name := []
  moduleSize := 0
  pid := 0
  event := ⟨0, 0, 0⟩
  context := []
  memory := some []
  deflated := []
  regions := none
  queryResult := 0
  region := ⟨0, 0, 0, 0⟩
  mapsline := []
  symbols := none
  name_lt := by decide
  context_lt := by decide
  memory_lt := by simp
  deflated_lt := by decide
  regions_lt := by simp

def server64 : Server := ⟨1, false⟩

/-- Calls that fail, and the end of the server. -/
def failedCalls : List Exchange :=
  [⟨.openProcess 5, silentApi, []⟩,
    ⟨.readProcessMemory 0 4096 16 0, silentApi, []⟩,
    ⟨.virtualQueryEx 0 4096, silentApi, []⟩,
    ⟨.terminateServer, silentApi, []⟩]

theorem failedCalls_staysFramed : StaysFramed server64 .idle failedCalls :=
  (staysFramed_iff server64 failedCalls (by
    simp [failedCalls, Request.Whole])).mpr (by
    constructor
    · simp [failedCalls, Exchange.Meets, Request.Answerable, silentApi]
    · simp [failedCalls, NoneAfterTermination, Request.terminates])

/-- The regions of an invalid handle: the server writes nothing, and the
client reads a count. -/
theorem invalid_handle_not_framed :
    ¬StaysFramed server64 .idle
      [⟨.virtualQueryExStartCache 0 0, silentApi, []⟩] := by
  rintro ⟨closed, hexchange, -⟩
  cases hexchange

end Framing
end Network
end CheatEngine
