import InferenceOS.Kernel.Ipc

/-! The data of the shell's protocol, `shell_protocol.h` and `display_safe_entry.h`: requests as they lie in the payload of
    a message, and the replies that the shell's functions fill in. -/

namespace InferenceOS

def shellProtocolVersion : Nat := 1

abbrev shellFileViewReplyCapacity : Nat := 4

def displaySafeEntryVersion : Nat := 1

abbrev displaySafeNameCapacity : Nat := 64

inductive ShellOperation where
  | directoryView | typeView | search | guiView
  deriving DecidableEq, Repr

/-- The number of an operation. -/
def ShellOperation.number : ShellOperation → Nat
  | .directoryView => 1
  | .typeView => 2
  | .search => 3
  | .guiView => 4

structure DisplaySafeEntry where
  size : Nat
  version : Nat
  genericAttributes : Nat
  objectHandle : Nat
  typeIconCapability : Nat
  byteSize : Nat
  allowedOperations : Nat
  objectKind : Nat
  displayNameLength : Nat
  reserved : Bytes 6
  displayName : Bytes displaySafeNameCapacity

/-- `sizeof(struct ios_display_safe_entry)`. -/
def displaySafeEntrySize : Nat := 112

/-- An entry of zeros. -/
def DisplaySafeEntry.zero : DisplaySafeEntry := ⟨0, 0, 0, 0, 0, 0, 0, 0, 0, Bytes.zero, Bytes.zero⟩

structure FileViewRequest where
  size : Nat
  version : Nat
  flags : Nat
  directoryHandle : Nat
  typeIconCapability : Nat
  continuation : Nat
  maximumItems : Nat
  reserved16 : Nat
  reserved32 : Nat

/-- `sizeof(struct ios_shell_file_view_request)`. -/
def fileViewRequestSize : Nat := 40

/-- The request in a payload. -/
def FileViewRequest.read (payload : Bytes ipcMaxPayloadSize) : FileViewRequest where
  size := payload.toNat 0 2
  version := payload.toNat 2 2
  flags := payload.toNat 4 4
  directoryHandle := payload.toNat 8 8
  typeIconCapability := payload.toNat 16 8
  continuation := payload.toNat 24 8
  maximumItems := payload.toNat 32 2
  reserved16 := payload.toNat 34 2
  reserved32 := payload.toNat 36 4

/-- `struct ios_shell_file_view_reply`; `status` is an `ios_status`. -/
structure FileViewReply where
  size : Nat
  version : Nat
  flags : Nat
  status : Except IosError Unit
  continuation : Nat
  itemCount : Nat
  reserved16 : Nat
  reserved32 : Nat
  entries : Fin shellFileViewReplyCapacity → DisplaySafeEntry

/-- `sizeof(struct ios_shell_file_view_reply)`. -/
def fileViewReplySize : Nat := 480

/-- A reply of zeros. -/
def FileViewReply.zero : FileViewReply := ⟨0, 0, 0, .ok (), 0, 0, 0, 0, fun _ => DisplaySafeEntry.zero⟩

structure GuiViewRequest where
  size : Nat
  version : Nat
  flags : Nat
  windowHandle : Nat
  viewHandle : Nat
  renderSequence : Nat

/-- `sizeof(struct ios_shell_gui_view_request)`. -/
def guiViewRequestSize : Nat := 32

/-- The request in a payload. -/
def GuiViewRequest.read (payload : Bytes ipcMaxPayloadSize) : GuiViewRequest where
  size := payload.toNat 0 2
  version := payload.toNat 2 2
  flags := payload.toNat 4 4
  windowHandle := payload.toNat 8 8
  viewHandle := payload.toNat 16 8
  renderSequence := payload.toNat 24 8

structure GuiViewReply where
  size : Nat
  version : Nat
  flags : Nat
  status : Except IosError Unit
  renderSequence : Nat

/-- `sizeof(struct ios_shell_gui_view_reply)`. -/
def guiViewReplySize : Nat := 24

/-- A reply of zeros. -/
def GuiViewReply.zero : GuiViewReply := ⟨0, 0, 0, .ok (), 0⟩

/-- The union of the replies in `struct ios_shell_dispatch_result`. -/
inductive ShellReply where
  | fileView (reply : FileViewReply)
  | guiView (reply : GuiViewReply)

structure ShellDispatchResult where
  requestId : Nat
  operation : Nat
  itemCount : Nat
  payloadSize : Nat
  payload : ShellReply

/-- A result of zeros. -/
def ShellDispatchResult.zero : ShellDispatchResult := ⟨0, 0, 0, 0, .fileView FileViewReply.zero⟩

end InferenceOS
