import TensorDE.Lib.Effect
import TensorDE.Lib.Maps
import TensorDE.Lib.Segments
import TensorDE.Dbus.Names

namespace TensorDE.Dbus

open Effect Maps Bytes

variable {Handler Property : Type}

def slash : UInt8 := 47

structure Method (Handler : Type) where
  input : List Bytes
  output : List Bytes
  handler : Handler

structure Signal where
  arguments : List Bytes

structure Interface (Handler Property : Type) where
  methods : Map Bytes (Method Handler)
  properties : Map Bytes Property
  signals : Map Bytes Signal

def Interface.default : Interface Handler Property := ⟨.empty, .empty, .empty⟩

structure Object (Handler Property : Type) where
  interfaces : Map Bytes (Interface Handler Property)
  objectManager : Bool
  children : List Bytes
  registered : Bool

def Object.default : Object Handler Property := ⟨.empty, false, [], false⟩

structure ObjectServer (Handler Property : Type) where
  objects : Map Bytes (Object Handler Property)

def ObjectServer.new : ObjectServer Handler Property := ⟨.empty⟩

abbrev Serve (Handler Property α : Type) := Op (ObjectServer Handler Property) Error α

def isStandardInterface (interface : Bytes) : Bool :=
  interface = ofAscii "org.freedesktop.DBus.Introspectable" ||
  interface = ofAscii "org.freedesktop.DBus.Peer" ||
  interface = ofAscii "org.freedesktop.DBus.Properties" ||
  interface = ofAscii "org.freedesktop.DBus.ObjectManager"

def ancestors (path : Bytes) : List Bytes := Segments.ancestors slash path

def childSegment (stem path : Bytes) : Option Bytes :=
  match stem.isPrefixOf? path with
  | none => none
  | some suffix => if suffix ≠ [] ∧ slash ∉ suffix then some suffix else none

def directChildren (parent : Bytes) (paths : List Bytes) : List Bytes :=
  let stem := if parent = [slash] then [slash] else parent ++ [slash]
  (paths.filterMap (childSegment stem)).mergeSort

variable (server : ObjectServer Handler Property)

def kept : Map Bytes (Object Handler Property) :=
  server.objects.retain fun _ object => object.registered

variable (objects : Map Bytes (Object Handler Property))

def withAncestors : Map Bytes (Object Handler Property) :=
  objects.ensureAll (objects.keys.flatMap ancestors) Object.default

def withChildren : Map Bytes (Object Handler Property) :=
  objects.mapValues fun path object => { object with children := directChildren path objects.keys }

def refreshIntrospection : ObjectServer Handler Property :=
  ⟨withChildren (withAncestors (kept server))⟩

def check (result : Except Error Unit) : Serve Handler Property Unit :=
  match result with
  | .ok () => pure ()
  | .error e => fail e

/-- What the bus specification asks of an object path. -/
def isObjectPath : Bytes → Bool
  | [] => false
  | first :: rest => first == slash &&
    (rest.isEmpty || (rest.splitOn slash).all fun element => !element.isEmpty && element.all isMemberByte)

section Operations

variable (validPath : Bytes → Bool) (path : Bytes)

def validatePath : Except Error Unit := validateName validPath path "object path"

def checkRegistration (path interface name : Bytes) (kind : String) : Serve Handler Property Unit := do
  check (validatePath validPath path)
  check (validateInterfaceName interface "interface name")
  check (validateMemberName name kind)
  if isStandardInterface interface then fail (.reservedInterface interface) else pure ()

/-- The object a registration works on: registered, with the interface present. -/
def opened (interface : Bytes) (object : Object Handler Property) : Object Handler Property :=
  { object with registered := true, interfaces := object.interfaces.ensure interface Interface.default }

/-- The registrations differ in the table of the interface they write, in the
kind of name they check and in the error for a name already there. -/
def registerEntry {V : Type} (table : Interface Handler Property → Map Bytes V)
    (store : Interface Handler Property → Map Bytes V → Interface Handler Property)
    (kind : String) (duplicate : Bytes → Bytes → Bytes → Error)
    (path interface name : Bytes) (value : V) : Serve Handler Property Unit := do
  checkRegistration validPath path interface name kind
  modify fun server => ⟨(server.objects.ensure path Object.default).modify path (opened interface)⟩
  let server ← get
  let object ← expect (server.objects.find path)
  let entry ← expect (object.interfaces.find interface)
  if ((table entry).find name).isSome then fail (duplicate path interface name)
  else do
    modify fun server => ⟨server.objects.modify path fun object =>
      { object with
        interfaces := object.interfaces.modify interface
          (fun entry => store entry ((table entry).insert name value)) }⟩
    modify refreshIntrospection

def insert (path interface member : Bytes) (method : Method Handler) : Serve Handler Property Unit :=
  registerEntry validPath Interface.methods (fun entry methods => { entry with methods })
    "member name" Error.duplicateMethod path interface member method

def insertProperty (path interface name : Bytes) (property : Property) : Serve Handler Property Unit :=
  registerEntry validPath Interface.properties (fun entry properties => { entry with properties })
    "property name" Error.duplicateProperty path interface name property

def registerSignal (path interface name : Bytes) (signal : Signal) : Serve Handler Property Unit :=
  registerEntry validPath Interface.signals (fun entry signals => { entry with signals })
    "signal name" Error.duplicateSignal path interface name signal

def enableObjectManager : Serve Handler Property Unit := do
  check (validatePath validPath path)
  modify fun server => ⟨(server.objects.ensure path Object.default).modify path fun object =>
    { object with registered := true, objectManager := true }⟩
  modify refreshIntrospection

def unregisterInterface (path interface : Bytes) : Serve Handler Property Bool := do
  check (validatePath validPath path)
  check (validateInterfaceName interface "interface name")
  let server ← get
  match (server.objects.find path).filter (·.registered) with
  | none => pure false
  | some object =>
    if (object.interfaces.find interface).isNone then pure false
    else do
      let remaining := object.interfaces.erase interface
      modify fun server => ⟨if remaining.keys = [] ∧ object.objectManager = false
        then server.objects.erase path
        else server.objects.modify path fun object => { object with interfaces := remaining }⟩
      modify refreshIntrospection
      pure true

def unregisterObject : Serve Handler Property (List Bytes) := do
  check (validatePath validPath path)
  let server ← get
  match (server.objects.find path).filter (·.registered) with
  | none => pure []
  | some object => do
    modify fun server => ⟨server.objects.erase path⟩
    modify refreshIntrospection
    pure object.interfaces.keys.mergeSort

inductive Request (Handler Property : Type) where
  | insert (path interface member : Bytes) (method : Method Handler)
  | insertProperty (path interface name : Bytes) (property : Property)
  | registerSignal (path interface name : Bytes) (signal : Signal)
  | enableObjectManager (path : Bytes)
  | unregisterInterface (path interface : Bytes)
  | unregisterObject (path : Bytes)

inductive Answer where
  | done
  | removed (yes : Bool)
  | interfaces (names : List Bytes)

def serve : Request Handler Property → Serve Handler Property Answer
  | .insert path interface member method =>
    (fun _ => .done) <$> insert validPath path interface member method
  | .insertProperty path interface name property =>
    (fun _ => .done) <$> insertProperty validPath path interface name property
  | .registerSignal path interface name signal =>
    (fun _ => .done) <$> registerSignal validPath path interface name signal
  | .enableObjectManager path => (fun _ => .done) <$> enableObjectManager validPath path
  | .unregisterInterface path interface => .removed <$> unregisterInterface validPath path interface
  | .unregisterObject path => .interfaces <$> unregisterObject validPath path

end Operations

end TensorDE.Dbus
