import Genesis.Event
import Genesis.FileTree
import Genesis.Pem
import Genesis.Traffic

/-! Writing what a generation brought forth to a folder of files. -/

namespace Genesis

inductive Role where
  | wallets
  | validators
  | genesis
  | setup
  | traffic
  | delegators
  deriving DecidableEq, Repr

namespace Role

def fileName : Role → String
  | .wallets => "walletKey.pem"
  | .validators => "validatorKey.pem"
  | .genesis => "genesis.json"
  | .setup => "nodesSetup.json"
  | .traffic => "accounts.json"
  | .delegators => "delegators.pem"

def title : Role → String
  | .wallets => "WalletHandler"
  | .validators => "ValidatorKeyHandler"
  | .genesis => "GenesisHandler"
  | .setup => "NodesSetupHandler"
  | .traffic => "TxgenAccountsHandler"
  | .delegators => "DelegatorsHandler"

/-- The files that are always written, in the order in which they are looked for. -/
def required : List Role := [.wallets, .validators, .genesis, .setup]

end Role

abbrev OpenFiles := Role → Option FileHandle

namespace OpenFiles

def empty : OpenFiles := fun _ => none

def set (files : OpenFiles) (role : Role) (handle : Option FileHandle) : OpenFiles :=
  fun r => if r = role then handle else files r

/-- Opens new files for the given roles. Those opened before a failure stay in the tree. -/
def createAll (folder : Path) (files : OpenFiles) (t : FileTree) :
    List Role → Except Error OpenFiles × FileTree
  | [] => (.ok files, t)
  | role :: rest =>
    match FileHandle.create t folder role.fileName with
    | .error fault => (.error (.fileSystem fault), t)
    | .ok (handle, t) => createAll folder (files.set role handle) t rest

end OpenFiles

/-- What an output is made with. All but the two optional files must be there. -/
structure OutputParts where
  files : OpenFiles
  validatorFormat : Option KeyFormat
  walletFormat : Option KeyFormat
  coordinator : Option Coordinator
  network : NetworkConfig

namespace OutputParts

def roles (traffic delegators : Bool) : List Role :=
  [.wallets, .setup, .genesis, .validators] ++ (if traffic then [.traffic] else []) ++
    (if delegators then [.delegators] else [])

def create (folder : Path) (validatorFormat walletFormat : KeyFormat) (coordinator : Coordinator)
    (traffic delegators : Bool) (network : NetworkConfig) (t : FileTree) :
    Except Error OutputParts × FileTree :=
  match OpenFiles.createAll folder .empty t (roles traffic delegators) with
  | (.error e, t) => (.error e, t)
  | (.ok files, t) =>
    (.ok { files, validatorFormat := some validatorFormat, walletFormat := some walletFormat,
           coordinator := some coordinator, network }, t)

end OutputParts

structure Writer where
  files : OpenFiles
  validatorFormat : KeyFormat
  walletFormat : KeyFormat
  coordinator : Coordinator
  network : NetworkConfig

structure Desk where
  writer : Writer
  tree : FileTree
  journal : List Event := []

/-- What is written before a failure stays written. -/
abbrev Writing (α : Type) := ExceptT Error (StateM Desk) α

namespace Writer

def ofParts? (parts : OutputParts) : Except Error Writer := do
  Role.required.forM fun role =>
    if (parts.files role).isNone then .error (.missingFile role.title) else .ok ()
  let some validatorFormat := parts.validatorFormat
    | throw (.noConverter "ValidatorPubKeyConverter")
  let some walletFormat := parts.walletFormat
    | throw (.noConverter "WalletPubKeyConverter")
  let some coordinator := parts.coordinator | throw (.missingValue "ShardCoordinator")
  return { files := parts.files, validatorFormat, walletFormat, coordinator,
           network := parts.network }

end Writer

namespace Writing

def put (role : Role) (text : String) : Writing Unit := modify fun desk =>
  match desk.writer.files role with
  | none => desk
  | some handle =>
    let (handle, tree) := handle.write text desk.tree
    { desk with tree, writer := { desk.writer with files := desk.writer.files.set role handle } }

def report (event : Event) : Writing Unit := modify fun desk =>
  { desk with journal := desk.journal ++ [event] }

def putKeys (role : Role) (format : KeyFormat) (keys : List (Bytes × Bytes)) : Writing Unit :=
  keys.forM fun (publicKey, privateKey) => do
    let identifier ← format.encode publicKey
    put role (Pem.block identifier privateKey)

def blsPairs (keys : List BlsKey) : List (Bytes × Bytes) :=
  keys.map fun key => (key.publicKey, key.privateKey)

def walletPairs (keys : List WalletKey) : List (Bytes × Bytes) :=
  keys.map fun key => (key.publicKey, key.privateKey)

def putSetup (nodes : List Node) : Writing Unit := do
  let desk ← get
  let setup : NodesSetup := { config := desk.writer.network, initialNodes := nodes }
  put .setup (Json.ofSetup setup).lines

def putGenesis (accounts : List Account) : Writing Unit :=
  put .genesis (Json.array (accounts.map Json.ofAccount)).lines

def putDelegators (delegators : List WalletKey) : Writing Unit := do
  let writer := (← get).writer
  if (writer.files .delegators).isNone then report .delegatorsSkipped
  else putKeys .delegators writer.walletFormat (walletPairs delegators)

def putTraffic (wallets : List WalletKey) : Writing Unit := do
  let writer := (← get).writer
  if (writer.files .traffic).isNone then report .trafficSkipped
  else
    let groups ← TrafficAccount.group writer.walletFormat writer.coordinator wallets
    put .traffic (Json.ofTrafficGroups groups).lines

def putBundle (b : Bundle) : Writing Unit := do
  let writer := (← get).writer
  putSetup b.nodes
  putGenesis b.accounts
  putKeys .validators writer.validatorFormat (blsPairs (b.validators ++ b.observers))
  putKeys .wallets writer.walletFormat (walletPairs b.wallets)
  putDelegators b.delegators
  putTraffic b.additional
  report (.filesWritten b.accounts.length b.nodes.length b.wallets.length b.delegators.length)

end Writing

end Genesis
