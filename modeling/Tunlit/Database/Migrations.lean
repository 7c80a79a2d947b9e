import Mathlib.Data.Int.Notation
import Mathlib.Data.Nat.Notation
import Mathlib.Logic.Function.Basic

/-! # Migrations of the database

`utils/migrationRunner.js` and the files of `migrations/`. A migration is what its `up` awaits,
one statement after the other: a table is created unless it is there, a column or an index that
is there already is an error. -/
namespace Tunlit.Database.Migrations

/-! ## The database -/

inductive DataType where
  | integer
  | bigint
  | string
  | text
  | boolean
  | date
  | blob
deriving DecidableEq

inductive Value where
  | null
  | integer (n : ℤ)
  | text (s : String)
  | blob (bytes : List UInt8)
deriving DecidableEq

/-- `DataTypes.NOW` is the time of the insertion. -/
inductive Default where
  | value (value : Value)
  | now
deriving DecidableEq

/-- A column refers to the id of another table, and its rows go with it. -/
structure Column where
  name : String
  type : DataType
  allowNull : Bool := false
  unique : Bool := false
  primaryKey : Bool := false
  autoIncrement : Bool := false
  defaultValue : Option Default := none
  references : Option String := none
deriving DecidableEq

abbrev Row := String → Value

structure Table where
  columns : List Column
  rows : List Row := []

structure Index where
  table : String
  columns : List String
  unique : Bool := false
deriving DecidableEq

/-- `executed` has the rows of `SequelizeMeta`, once the table is there. -/
structure Db where
  tables : String → Option Table := fun _ => none
  indexes : List Index := []
  executed : Option (List String) := none

inductive Statement where
  | createTable (name : String) (columns : List Column)
  | addColumn (table : String) (column : Column)
  | removeColumn (table column : String)
  | addIndex (index : Index)
  | bulkDelete (table : String)
  | update (table column : String) (value id : Value)

def Column.has (name : String) (columns : List Column) : Bool := columns.any (·.name == name)

/-- What the rows get for a column that is added. -/
def Column.fill (column : Column) (row : Row) : Row :=
  match column.defaultValue with
  | some (.value value) => Function.update row column.name value
  | _ => Function.update row column.name .null

/-- The name of an index is made of its table and its columns. -/
def Index.sameName (a b : Index) : Bool := a.table == b.table && a.columns == b.columns

namespace Db

variable (db : Db)

def set (name : String) (table : Table) : Db :=
  { db with tables := Function.update db.tables name (some table) }

def run : Statement → Option Db
  | .createTable name columns =>
    if (db.tables name).isSome then some db else some (db.set name { columns })
  | .addColumn name column =>
    (db.tables name).bind fun table =>
      if Column.has column.name table.columns then none
      else some (db.set name
        { columns := table.columns ++ [column], rows := table.rows.map column.fill })
  | .removeColumn name column =>
    (db.tables name).map fun table =>
      db.set name { table with columns := table.columns.filter (·.name != column) }
  | .addIndex index =>
    (db.tables index.table).bind fun _ =>
      if db.indexes.any index.sameName then none
      else some { db with indexes := db.indexes ++ [index] }
  | .bulkDelete name => (db.tables name).map fun table => db.set name { table with rows := [] }
  | .update name column value id =>
    (db.tables name).map fun table => db.set name { table with
      rows := table.rows.map fun row =>
        if row "id" = id then Function.update row column value else row }

end Db

/-! ## What a migration awaits -/

inductive Up where
  | done
  | throw
  | await (statement : Statement) (next : Up)
  | select (table : String) (next : List Row → Up)

/-- The statements one after the other. -/
def statements (list : List Statement) : Up := list.foldr .await .done

def Up.run : Up → Db → Option Db
  | .done, db => some db
  | .throw, _ => none
  | .await statement next, db => (db.run statement).bind next.run
  | .select table next, db => (db.tables table).bind fun found => (next found.rows).run db

/-- The database once so many statements have run. -/
def Up.after : ℕ → Up → Db → Option Db
  | 0, _, db => some db
  | n + 1, .await statement next, db => (db.run statement).bind (next.after n)
  | n + 1, .select table next, db => (db.tables table).bind fun found =>
    (next found.rows).after n db
  | _ + 1, .done, _ | _ + 1, .throw, _ => none

structure Migration where
  file : String
  up : Up

/-! ## The files -/

def idColumn : Column :=
  { name := "id", type := .integer, autoIncrement := true, primaryKey := true }

def owner : Column := { name := "accountId", type := .integer, references := some "accounts" }

def created (name : String) : Column := { name, type := .date, defaultValue := some .now }

def text (s : String) : Option Default := some (.value (.text s))

def number (n : ℤ) : Option Default := some (.value (.integer n))

def truth (b : Bool) : Option Default := number (if b then 1 else 0)

/-- `TABLES` of the first file -/
def TABLES : List (String × List Column) :=
  [("accounts",
    [idColumn,
     { name := "username", type := .string, unique := true },
     { name := "passwordHash", type := .string },
     { name := "role", type := .string, defaultValue := text "user" },
     { name := "totpSecret", type := .string, allowNull := true },
     { name := "totpEnabled", type := .boolean, defaultValue := truth false },
     created "createdAt"]),
   ("sessions",
    [idColumn,
     owner,
     { name := "token", type := .string, unique := true },
     { name := "ip", type := .string, allowNull := true },
     { name := "userAgent", type := .string, allowNull := true },
     created "createdAt",
     created "lastSeen"]),
   ("devices",
    [idColumn,
     owner,
     { name := "name", type := .string },
     { name := "tokenHash", type := .string, unique := true },
     { name := "ip", type := .string, allowNull := true },
     { name := "userAgent", type := .string, allowNull := true },
     created "createdAt",
     { name := "lastUsedAt", type := .date, allowNull := true }]),
   ("passkeys",
    [idColumn,
     owner,
     { name := "name", type := .string, defaultValue := text "Passkey" },
     { name := "credentialId", type := .text, unique := true },
     { name := "publicKey", type := .text },
     { name := "counter", type := .integer, defaultValue := number 0 },
     { name := "deviceType", type := .string, allowNull := true },
     { name := "backedUp", type := .boolean, defaultValue := truth false },
     { name := "transports", type := .text, allowNull := true },
     created "createdAt",
     { name := "lastUsedAt", type := .date, allowNull := true }]),
   ("oidc_providers",
    [idColumn,
     { name := "name", type := .string },
     { name := "issuer", type := .string },
     { name := "clientId", type := .string },
     { name := "clientSecret", type := .text, allowNull := true },
     { name := "scope", type := .string, defaultValue := text "openid profile email" },
     { name := "usernameClaim", type := .string, defaultValue := text "preferred_username" },
     { name := "createAccounts", type := .boolean, defaultValue := truth true },
     { name := "enabled", type := .boolean, defaultValue := truth true },
     created "createdAt"]),
   ("tunnels",
    [idColumn,
     { name := "name", type := .string, unique := true },
     owner,
     { name := "allowedIps", type := .text, defaultValue := text "[]" },
     { name := "auth", type := .string, defaultValue := text "none" },
     { name := "passwordHash", type := .string, allowNull := true },
     created "createdAt"]),
   ("requests",
    [idColumn,
     { name := "tunnel", type := .string },
     { name := "time", type := .date },
     { name := "duration", type := .integer, defaultValue := number 0 },
     { name := "kind", type := .string, defaultValue := text "http" },
     { name := "method", type := .string, allowNull := true },
     { name := "path", type := .text, allowNull := true },
     { name := "status", type := .integer, allowNull := true },
     { name := "ip", type := .string, allowNull := true },
     { name := "host", type := .string, allowNull := true },
     { name := "requestHeaders", type := .text, allowNull := true },
     { name := "requestBody", type := .blob, allowNull := true },
     { name := "requestBytes", type := .integer, defaultValue := number 0 },
     { name := "requestTruncated", type := .boolean, defaultValue := truth false },
     { name := "responseHeaders", type := .text, allowNull := true },
     { name := "responseBody", type := .blob, allowNull := true },
     { name := "responseBytes", type := .integer, defaultValue := number 0 },
     { name := "responseTruncated", type := .boolean, defaultValue := truth false }]),
   ("certificates",
    [idColumn,
     { name := "domain", type := .string, unique := true },
     { name := "altNames", type := .text, defaultValue := text "[]" },
     { name := "privateKey", type := .text },
     { name := "chain", type := .text },
     created "issuedAt",
     { name := "expiresAt", type := .date }]),
   ("acme",
    [idColumn,
     { name := "email", type := .string, allowNull := true },
     { name := "provider", type := .string, defaultValue := text "manual" },
     { name := "credential", type := .text, allowNull := true },
     { name := "accountKey", type := .text, allowNull := true }]),
   ("settings",
    [{ name := "key", type := .string, primaryKey := true },
     { name := "value", type := .text, allowNull := true }])]

def schema : Migration where
  file := "0001-schema.js"
  up := statements ((TABLES.map fun table => Statement.createTable table.1 table.2) ++
    [.addIndex { table := "requests", columns := ["tunnel", "id"] }])

def persistentTunnels : Migration where
  file := "0002-persistent-tunnels.js"
  up := statements
    [.bulkDelete "tunnels",
     .createTable "domains"
      [idColumn,
       { name := "hostname", type := .string, unique := true },
       { name := "tunnelName", type := .string },
       owner,
       { name := "state", type := .string, defaultValue := text "pending" },
       { name := "lastError", type := .text, allowNull := true },
       { name := "checkedAt", type := .date, allowNull := true },
       created "createdAt"],
     .addIndex { table := "domains", columns := ["tunnelName"] }]

def quotas : Migration where
  file := "0003-quotas.js"
  up := statements
    [.addColumn "accounts" { name := "quotas", type := .text, allowNull := true },
     .createTable "usage"
      [idColumn,
       owner,
       { name := "month", type := .string },
       { name := "bytesIn", type := .bigint, defaultValue := number 0 },
       { name := "bytesOut", type := .bigint, defaultValue := number 0 },
       { name := "requests", type := .integer, defaultValue := number 0 }],
     .addIndex { table := "usage", columns := ["accountId", "month"], unique := true }]

def websocketFrames : Migration where
  file := "0004-websocket-frames.js"
  up := statements
    [.addColumn "requests" { name := "connection", type := .string, allowNull := true },
     .addIndex { table := "requests", columns := ["connection"] },
     .createTable "frames"
      [idColumn,
       { name := "tunnel", type := .string },
       { name := "connection", type := .string },
       { name := "direction", type := .string },
       { name := "opcode", type := .integer },
       { name := "time", type := .date },
       { name := "bytes", type := .integer, defaultValue := number 0 },
       { name := "payload", type := .blob, allowNull := true },
       { name := "truncated", type := .boolean, defaultValue := truth false }],
     .addIndex { table := "frames", columns := ["connection", "id"] },
     .addIndex { table := "frames", columns := ["tunnel"] }]

def ipIntel : Migration where
  file := "0005-ip-intel.js"
  up := statements [.addColumn "requests" { name := "intel", type := .text, allowNull := true }]

section
variable (rules : Value → Option String)

/-- The loop over the rows. `rules` is the text made of `allowedIps`, which has to be JSON. -/
def rewrite : List Row → Up
  | [] => .await (.removeColumn "tunnels" "allowedIps") .done
  | row :: rest =>
    match rules (row "allowedIps") with
    | some value => .await (.update "tunnels" "rules" (.text value) (row "id")) (rewrite rest)
    | none => .throw

def accessRules : Migration where
  file := "0006-access-rules.js"
  up :=
    .await (.addColumn "tunnels"
        { name := "rules", type := .text, defaultValue := text "\x7b\x7d" })
      (.select "tunnels" (rewrite rules))

end

def visitors : Migration where
  file := "0007-visitors.js"
  up := statements
    [.createTable "visitors"
      [idColumn,
       { name := "tunnel", type := .string },
       { name := "ip", type := .string },
       { name := "intel", type := .text, allowNull := true },
       { name := "requests", type := .integer, defaultValue := number 0 },
       { name := "blocked", type := .integer, defaultValue := number 0 },
       { name := "reason", type := .string, allowNull := true },
       { name := "firstSeen", type := .date },
       { name := "lastSeen", type := .date }],
     .addIndex { table := "visitors", columns := ["tunnel", "ip"], unique := true },
     .addIndex { table := "visitors", columns := ["tunnel", "lastSeen"] }]

def connections : Migration where
  file := "0008-connections.js"
  up := statements
    [.createTable "connections"
      [idColumn,
       { name := "tunnel", type := .string },
       { name := "key", type := .string, unique := true },
       { name := "protocol", type := .string },
       { name := "ip", type := .string },
       { name := "intel", type := .text },
       { name := "client", type := .string },
       { name := "joiner", type := .string },
       { name := "startedAt", type := .date },
       { name := "endedAt", type := .date, allowNull := true },
       { name := "bytesIn", type := .integer, defaultValue := number 0 },
       { name := "bytesOut", type := .integer, defaultValue := number 0 },
       { name := "reason", type := .string, allowNull := true },
       { name := "detail", type := .text, allowNull := true }],
     .addIndex { table := "connections", columns := ["tunnel", "startedAt"] }]

def invites : Migration where
  file := "0009-invites.js"
  up := statements
    [.createTable "invites"
      [idColumn,
       { name := "accountId", type := .integer },
       { name := "label", type := .string },
       { name := "tokenHash", type := .string, unique := true },
       { name := "createdAt", type := .date },
       { name := "lastUsedAt", type := .date, allowNull := true },
       { name := "uses", type := .integer, defaultValue := number 0 }]]

def apiKeys : Migration where
  file := "0010-api-keys.js"
  up := statements
    [.addColumn "devices" { name := "kind", type := .string, defaultValue := text "device" }]

/-! ## The runner -/

/-- The files of the directory, in their order. -/
def FILES (rules : Value → Option String) : List Migration :=
  [schema, persistentTunnels, quotas, websocketFrames, ipIntel, accessRules rules, visitors,
    connections, invites, apiKeys]

/-- `ensureTable` -/
def ensureTable (db : Db) : Db :=
  { db with executed := some (db.executed.getD []) }

def pending (files : List Migration) (db : Db) : List Migration :=
  files.filter fun migration => migration.file ∉ db.executed.getD []

/-- The insert into `SequelizeMeta`. -/
def record (migration : Migration) (db : Db) : Db :=
  { db with executed := some (db.executed.getD [] ++ [migration.file]) }

/-- The loop over the pending files. -/
def applyAll : List Migration → Db → Option Db
  | [], db => some db
  | migration :: rest, db => (migration.up.run db).bind fun next =>
    applyAll rest (record migration next)

def runMigrations (files : List Migration) (db : Db) : Option Db :=
  applyAll (pending files db) (ensureTable db)

/-- The database where `runMigrations` is interrupted: so many of the pending files are done, and
so many statements of the next one. -/
def interrupted (files : List Migration) (db : Db) (applied ran : ℕ) : Option Db :=
  (applyAll ((pending files db).take applied) (ensureTable db)).bind fun reached =>
    match (pending files db)[applied]? with
    | some migration => migration.up.after ran reached
    | none => if ran = 0 then some reached else none

end Tunlit.Database.Migrations
