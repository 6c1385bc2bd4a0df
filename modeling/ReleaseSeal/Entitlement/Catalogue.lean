/-!
# The catalogue of entitlements

A closed table of the entitlements that are known. Each has the categories of risk that it falls
under and a rule: it may never be declared, may be declared freely, or needs a usage description
under one of some property names. A key that is not in the table is not recognised and takes no part
in the policy.
-/

namespace ReleaseSeal.Entitlement

/-- The categories of risk. -/
inductive Category where
  | prerequisite
  | harmless
  | assets
  | readFile
  | writeFile
  | network
  | device
  | misc
  | personalInformation
  | volatile
deriving DecidableEq, Repr

/-- The name of a category in reports. -/
def Category.name : Category → String
  | prerequisite => "prerequisite"
  | harmless => "harmless"
  | assets => "assets"
  | readFile => "readFile"
  | writeFile => "writeFile"
  | network => "network"
  | device => "device"
  | misc => "misc"
  | personalInformation => "personal_information"
  | volatile => "volatile"

/-- All categories, in the order of their names. -/
def Category.all : List Category :=
  [assets, device, harmless, misc, network, personalInformation, prerequisite, readFile, volatile,
   writeFile]

/-- Under which condition an entitlement may be declared. -/
inductive Rule where
  | forbidden
  | unrestricted
  /-- One of the properties must hold a usage description. -/
  | explained (properties : List String)
deriving DecidableEq, Repr

/-- The name of a rule in reports. -/
def Rule.name : Rule → String
  | forbidden => "forbidden"
  | unrestricted => "unrestricted"
  | explained _ => "requires"

/-- The properties that may hold the usage description. -/
def Rule.properties : Rule → List String
  | explained properties => properties
  | forbidden | unrestricted => []

/-- A known entitlement. -/
structure Entry where
  key : String
  categories : List Category
  rule : Rule
deriving DecidableEq, Repr

/-- What the keys of the security entitlements begin with. -/
def securityDomain : String := "com.apple.security."

/-- What the keys of temporary exceptions begin with. -/
def temporaryDomain : String := securityDomain ++ "temporary-exception."

/-- What the keys of the developer entitlements begin with. -/
def developerDomain : String := "com.apple.developer."

/-- The key of the sandbox entitlement. -/
def appSandbox : String := securityDomain ++ "app-sandbox"

/-- The key of the entitlement that lists groups of applications. -/
def applicationGroups : String := securityDomain ++ "application-groups"

/-- The entitlement is a temporary exception from the sandbox. -/
def Entry.isTemporaryException (e : Entry) : Bool :=
  temporaryDomain.toList.isPrefixOf e.key.toList

namespace Catalogue

/-- The categories of reading files. -/
def reading : List Category := [.readFile]

/-- The categories of reading and writing files. -/
def writing : List Category := [.readFile, .writeFile]

/-- The categories of access to the user's media. -/
def library : List Category := [.assets, .readFile, .writeFile]

/-- A security entitlement that may never be declared. -/
def forbidden (name : String) (categories : List Category) : Entry :=
  { key := securityDomain ++ name, categories, rule := .forbidden }

/-- A security entitlement that may be declared freely. -/
def unrestricted (name : String) (categories : List Category) : Entry :=
  { key := securityDomain ++ name, categories, rule := .unrestricted }

/-- A security entitlement that needs a usage description under its own key. -/
def explained (name : String) (categories : List Category) : Entry :=
  let key := securityDomain ++ name
  { key, categories, rule := .explained [key] }

/-- An entitlement without a category that needs a usage description under its own key. -/
def plain (key : String) : Entry :=
  { key, categories := [], rule := .explained [key] }

/-- The security entitlements. -/
def security : List Entry :=
  [unrestricted "app-sandbox" [.prerequisite],
   unrestricted "cs.allow-jit" [.harmless],
   explained "cs.debugger" [.volatile],
   forbidden "cs.allow-unsigned-executable-memory" [.volatile],
   forbidden "cs.allow-dyld-environment-variables" [.volatile],
   unrestricted "cs.disable-library-validation" [.volatile],
   forbidden "cs.disable-executable-page-protection" [.volatile],
   explained "network.client" [.network],
   explained "network.server" [.network],
   forbidden "files.all" writing,
   explained "files.user-selected.read-only" reading,
   explained "files.user-selected.read-write" writing,
   explained "files.user-selected.executable" writing,
   explained "files.downloads.read-only" reading,
   explained "files.downloads.read-write" writing,
   explained "files.bookmarks.app-scope" [.harmless],
   explained "files.bookmarks.document-scope" [.harmless],
   explained "assets.pictures.read-only" library,
   explained "assets.pictures.read-write" library,
   explained "assets.music.read-only" library,
   explained "assets.music.read-write" library,
   explained "assets.movies.read-only" library,
   explained "assets.movies.read-write" library,
   explained "personal-information.location" [.personalInformation],
   explained "personal-information.addressbook" [.personalInformation],
   explained "personal-information.calendars" [.personalInformation],
   explained "print" [.device],
   explained "device.camera" [.device],
   explained "device.microphone" [.device],
   explained "device.usb" [.device],
   explained "device.serial" [.device],
   explained "device.firewire" [.device],
   explained "device.bluetooth" [.device],
   explained "device.audio-input" [.device],
   explained "device.audio-video-bridging" [.device],
   explained "scripting-targets" [.harmless],
   explained "application-groups" [.harmless],
   explained "get-task-allow" [],
   explained "temporary-exception.files.home-relative-path.read-only" reading,
   explained "temporary-exception.files.home-relative-path.read-write" writing,
   explained "temporary-exception.files.absolute-path.read-only" reading,
   explained "temporary-exception.files.absolute-path.read-write" writing,
   explained "temporary-exception.apple-events" [.misc],
   explained "temporary-exception.audio-unit-host" [.misc],
   explained "temporary-exception.iokit-user-client-class" [.misc],
   explained "temporary-exception.mach-lookup.global-name" [.misc],
   explained "temporary-exception.mach-register.global-name" [.misc],
   explained "temporary-exception.shared-preference.read-only" writing,
   explained "temporary-exception.shared-preference.read-write" writing]

/-- The names of the developer entitlements in their domain. -/
def developerNames : List String :=
  ["mail-client", "web-browser", "authentication-services.autofill-credential-provider",
   "applesignin", "contacts.notes", "ClassKit-environment", "automatic-assessment-configuration",
   "game-center", "healthkit", "healthkit.access", "homekit",
   "icloud-container-development-container-identifiers", "icloud-container-environment",
   "icloud-container-identifiers", "icloud-services", "ubiquity-kvstore-identifier",
   "networking.networkextension", "networking.vpn.api", "networking.wifi-info",
   "networking.multipath", "networking.HotspotConfiguration", "default-data-protection", "siri",
   "pass-type-identifiers", "in-app-payments", "nfc.readersession.formats", "associated-domains",
   "maps", "driverkit.transport.pci"]

/-- The keys of further entitlements. -/
def otherKeys : List String :=
  ["inter-app-audio", "aps-environment", "keychain-access-groups",
   "com.apple.external-accessory.wireless-configuration"]

/-- All known entitlements. -/
def all : List Entry :=
  security ++ developerNames.map (fun name => plain (developerDomain ++ name)) ++ otherKeys.map plain

/-- The entitlement of a key, if it is known. -/
def find? (key : String) : Option Entry :=
  all.find? fun e => e.key == key

end Catalogue

end ReleaseSeal.Entitlement
