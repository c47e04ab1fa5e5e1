import ChangeRelay.Error.Basic
import ChangeRelay.Record.Basic
import ChangeRelay.Time.Duration
/-!
# Configuration

What the relay is told to do: which brokers to use, how to publish, and where to keep its
checkpoint. Only the brokers have to be named; everything else has a default.
-/

namespace ChangeRelay

namespace Config

/-- The part of a row that decides its partition, by the name it has in documents. -/
inductive PlacementKind
  | database
  | table
  | primaryKey
  | column
deriving DecidableEq, Repr, Inhabited

/-- The names of the kinds. -/
def PlacementKind.names : Enumeration PlacementKind where
  title := "PartitionKeyKind"
  values :=
    [("database", .database), ("table", .table), ("primary_key", .primaryKey), ("column", .column)]
  name
    | .database => "database"
    | .table => "table"
    | .primaryKey => "primary_key"
    | .column => "column"

/-- The name of a kind in log lines. -/
def PlacementKind.structured : PlacementKind → String
  | .database => "Database"
  | .table => "Table"
  | .primaryKey => "PrimaryKey"
  | .column => "Column"

/-- How the brokers are reached. -/
structure Brokers where
  addresses : List String
  compression : String := "snappy"
  acks : String := "all"
  lingerMillis : UInt32 := 100
  batchBytes : UInt64 := 16384
  queueKilobytes : UInt64 := 32768
  messageBytes : UInt64 := 1000000
  metadataMillis : UInt64 := 5000
  closeMillis : UInt64 := 30000
  /-- Settings of the client by name, which win over all others. -/
  properties : List (String × String) := []
deriving DecidableEq, Repr, Inhabited

/-- How changes are published. -/
structure Publishing where
  topic : String := "maxwell"
  /-- The topic of schema changes, the same as that of rows if it is not given. -/
  schemaTopic : Option String := none
  /-- Where records go that could not be delivered. -/
  redirectTopic : Option String := none
  placementKind : PlacementKind := .database
  placementColumns : List String := []
  keyless : Keyless := .database
  hash : KeyHash := .polynomial
  keyEncoding : KeyEncoding := .digest
  ignoreErrors : Bool := false
  queueCapacity : UInt64 := 100
deriving DecidableEq, Repr, Inhabited

/-- Where the checkpoint is kept. -/
structure Checkpointing where
  file : String := "checkpoint.json"
  intervalSeconds : UInt64 := 10
deriving DecidableEq, Repr, Inhabited

end Config

/-- A configuration. -/
structure Config where
  brokers : Config.Brokers
  publishing : Config.Publishing := {}
  checkpointing : Config.Checkpointing := {}
deriving DecidableEq, Repr, Inhabited

namespace Config

/-! ## Shapes -/

/-- The size of something. -/
def size : Shape UInt64 :=
  .leaf (.word "usize")

/-- A number of 64 bits. -/
def word : Shape UInt64 :=
  .leaf (.word "u64")

/-- The brokers as a record. -/
def Brokers.shape : Shape Brokers :=
  .record "KafkaConfig"
    (.cons "brokers" (.list (.leaf .text)) none <|
      .cons "compression" (.leaf .text) (some "snappy") <|
      .cons "acks" (.leaf .text) (some "all") <|
      .cons "linger_ms" (.leaf .halfWord) (some 100) <|
      .cons "batch_size" size (some 16384) <|
      .cons "queue_buffering_max_kbytes" size (some 32768) <|
      .cons "message_max_bytes" size (some 1000000) <|
      .cons "metadata_timeout_ms" word (some 5000) <|
      .cons "close_timeout_ms" word (some 30000) <|
      .cons "properties" (.table (.leaf .text)) (some []) .nil)
    (fun (addresses, compression, acks, linger, batch, queue, message, metadata, close, properties,
      ()) => ⟨addresses, compression, acks, linger, batch, queue, message, metadata, close,
        properties⟩)
    (fun b => (b.addresses, b.compression, b.acks, b.lingerMillis, b.batchBytes, b.queueKilobytes,
      b.messageBytes, b.metadataMillis, b.closeMillis, b.properties, ()))

/-- The publishing section as a record. -/
def Publishing.shape : Shape Publishing :=
  .record "ProducerConfig"
    (.cons "topic" (.leaf .text) (some "maxwell") <|
      .cons "schema_topic" (.optional (.leaf .text)) (some none) <|
      .cons "dead_letter_topic" (.optional (.leaf .text)) (some none) <|
      .cons "partition_by" (.enumeration PlacementKind.names) (some .database) <|
      .cons "partition_columns" (.list (.leaf .text)) (some []) <|
      .cons "partition_fallback" (.enumeration Keyless.names) (some .database) <|
      .cons "partition_hash" (.enumeration KeyHash.names) (some .polynomial) <|
      .cons "key_format" (.enumeration KeyEncoding.names) (some .digest) <|
      .cons "ignore_producer_errors" (.leaf .flag) (some false) <|
      .cons "queue_capacity" size (some 100) .nil)
    (fun (topic, schema, redirect, kind, columns, keyless, hash, encoding, ignore, capacity, ()) =>
      ⟨topic, schema, redirect, kind, columns, keyless, hash, encoding, ignore, capacity⟩)
    (fun p => (p.topic, p.schemaTopic, p.redirectTopic, p.placementKind, p.placementColumns,
      p.keyless, p.hash, p.keyEncoding, p.ignoreErrors, p.queueCapacity, ()))

/-- The checkpoint section as a record. -/
def Checkpointing.shape : Shape Checkpointing :=
  .record "CheckpointConfig"
    (.cons "file" (.leaf .path) (some "checkpoint.json") <|
      .cons "interval_secs" word (some 10) .nil)
    (fun (file, interval, ()) => ⟨file, interval⟩)
    (fun c => (c.file, c.intervalSeconds, ()))

/-- A configuration as a record. -/
def shape : Shape Config :=
  .record "Config"
    (.cons "kafka" Brokers.shape none <|
      .cons "producer" Publishing.shape (some {}) <|
      .cons "checkpoint" Checkpointing.shape (some {}) .nil)
    (fun (brokers, publishing, checkpointing, ()) => ⟨brokers, publishing, checkpointing⟩)
    (fun c => (c.brokers, c.publishing, c.checkpointing, ()))

/-! ## What follows from a configuration -/

/-- The settings of the broker client, by name. -/
def Brokers.clientProperties (b : Brokers) : List (String × String) :=
  let own := [
    ("bootstrap.servers", ",".intercalate b.addresses),
    ("compression.type", b.compression),
    ("acks", b.acks),
    ("linger.ms", toString b.lingerMillis.toNat),
    ("batch.size", toString b.batchBytes.toNat),
    ("queue.buffering.max.kbytes", toString b.queueKilobytes.toNat),
    ("message.max.bytes", toString b.messageBytes.toNat)]
  (own ++ b.properties).foldl (fun found (name, value) => Json.insertMember name value found) []

/-- How long to wait for metadata. -/
def Brokers.metadataTimeout (b : Brokers) : Duration :=
  .ofMillis b.metadataMillis.toNat

/-- How long the client may take to flush what it holds. -/
def Brokers.closeTimeout (b : Brokers) : Duration :=
  .ofMillis b.closeMillis.toNat

/-- The topic of schema changes. -/
def Publishing.schemaPattern (p : Publishing) : String :=
  p.schemaTopic.getD p.topic

/-- The placement key. Placement by columns needs columns. -/
def Publishing.placementKey (p : Publishing) : Except Error PlacementKey :=
  match p.placementKind with
  | .database => .ok .database
  | .table => .ok .table
  | .primaryKey => .ok .primaryKey
  | .column =>
    if p.placementColumns.isEmpty then
      .error (.config "producer.partition_columns is required when partition_by = \"column\"")
    else .ok (.columns p.placementColumns)

/-- How changes become records. -/
def Publishing.plan (p : Publishing) : Except Error RecordPlan := do
  let key ← p.placementKey
  .ok {
    rowTopic := ⟨p.topic⟩
    schemaTopic := ⟨p.schemaPattern⟩
    rowPlacement := ⟨p.hash, key, p.keyless⟩
    schemaPlacement := .ofSchemaChanges p.hash
    keyEncoding := p.keyEncoding }

/-- The queue has to hold something. -/
def Publishing.checkCapacity (p : Publishing) : Except Error Unit :=
  if p.queueCapacity = 0 then .error (.config "producer.queue_capacity must be positive")
  else .ok ()

/-- What a configuration has to fulfil before it is used. -/
def validate (c : Config) : Except Error Unit := do
  if c.brokers.addresses.isEmpty then .error (.config "kafka.brokers must not be empty")
  c.publishing.checkCapacity
  let _ ← c.publishing.placementKey

/-- A list of names with its parts named. -/
def structuredList (names : List String) : String :=
  "[" ++ ", ".intercalate (names.map Quoted.encode) ++ "]"

end Config

/-- A placement key with its parts named. -/
def PlacementKey.structured : PlacementKey → String
  | .database => "Database"
  | .table => "Table"
  | .primaryKey => "PrimaryKey"
  | .columns names => s!"Columns({Config.structuredList names})"

end ChangeRelay
