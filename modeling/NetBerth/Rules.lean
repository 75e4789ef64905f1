import NetBerth.SqlTable

/-!
# Forward and proxy rules as they are stored

A rule has a row of its own and a few lists, each entry of a list a row in a
table of its own with the id of the rule. Here are the columns that the
loaders read, the tables, and the rule that the tables hold for an id.
-/
namespace NetBerth.Rules
open SqlTable

abbrev ID := String

structure ACLEntry where
  id : ID
  value : String
  deriving DecidableEq, Repr

/-- A row of any of the list tables. -/
structure ListRow where
  id : ID
  ruleID : ID
  value : String
  deriving DecidableEq, Repr

instance : Keyed ListRow ID := ⟨ListRow.id⟩

structure ForwardRow where
  id : ID
  tenantID : ID
  ownerID : ID
  name : String
  protocol : String
  listenAddr : String
  listenPort : Int
  targetAddr : String
  targetPort : Int
  enableIPv6 : Bool
  maxConns : Int
  enabled : Bool
  scheduleOn : String
  scheduleOff : String
  deriving DecidableEq, Repr

instance : Keyed ForwardRow ID := ⟨ForwardRow.id⟩

structure ForwardLists where
  whitelist : List ACLEntry
  blacklist : List ACLEntry
  deriving DecidableEq, Repr

structure ForwardRule extends ForwardRow, ForwardLists where
  deriving DecidableEq, Repr

structure ProxyRow where
  id : ID
  tenantID : ID
  ownerID : ID
  name : String
  targetURL : String
  tlsEnabled : Bool
  certID : String
  forceHTTPS : Bool
  http2 : Bool
  websocket : Bool
  urlRewrite : String
  basicAuthUser : String
  basicAuthHash : String
  maxConns : Int
  enabled : Bool
  deriving DecidableEq, Repr

instance : Keyed ProxyRow ID := ⟨ProxyRow.id⟩

structure ProxyLists where
  domains : List String
  ipWhitelist : List ACLEntry
  ipBlacklist : List ACLEntry
  uaWhitelist : List String
  uaBlacklist : List String
  deriving DecidableEq, Repr

structure ProxyRule extends ProxyRow, ProxyLists where
  deriving DecidableEq, Repr

structure ForwardTables where
  rules : Table ForwardRow
  whitelist : Table ListRow
  blacklist : Table ListRow

structure ProxyTables where
  rules : Table ProxyRow
  domains : Table ListRow
  ipWhitelist : Table ListRow
  ipBlacklist : Table ListRow
  uaWhitelist : Table ListRow
  uaBlacklist : Table ListRow

/-- `SELECT id, value ... WHERE rule_id = ?`. -/
def entriesOf (t : Table ListRow) (ruleID : ID) : List ACLEntry :=
  (t.selectWhere fun r => r.ruleID = ruleID).map fun r => ⟨r.id, r.value⟩

/-- `SELECT value ... WHERE rule_id = ?`. -/
def valuesOf (t : Table ListRow) (ruleID : ID) : List String :=
  (t.selectWhere fun r => r.ruleID = ruleID).map ListRow.value

def ForwardTables.lists (db : ForwardTables) (id : ID) : ForwardLists :=
  ⟨entriesOf db.whitelist id, entriesOf db.blacklist id⟩

def ProxyTables.lists (db : ProxyTables) (id : ID) : ProxyLists :=
  ⟨valuesOf db.domains id, entriesOf db.ipWhitelist id, entriesOf db.ipBlacklist id,
    valuesOf db.uaWhitelist id, valuesOf db.uaBlacklist id⟩

/-- The rule the tables hold, with all its lists. -/
def ForwardTables.rule (db : ForwardTables) (row : ForwardRow) : ForwardRule :=
  ⟨row, db.lists row.id⟩

def ProxyTables.rule (db : ProxyTables) (row : ProxyRow) : ProxyRule := ⟨row, db.lists row.id⟩

end NetBerth.Rules
