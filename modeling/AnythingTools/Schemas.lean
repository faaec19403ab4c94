import AnythingTools.Relational.Ddl

namespace Schemas
open Relational

def jobs : TableDdl where
  ifNotExists := false
  schema := {
    columns := [
      (col "job_id" "TEXT").keyed 1,
      (col "session_id" "TEXT").notNull,
      (col "tool_name" "TEXT").notNull,
      (col "args_json" "TEXT").notNull.defaultText "\x7b\x7d",
      (col "status" "TEXT").notNull.defaultText "PENDING",
      (col "retry_count" "INTEGER").notNull.defaultInt 0,
      (col "resume_count" "INTEGER").notNull.defaultInt 0,
      (col "created_at" "TEXT").notNull.stamped,
      (col "updated_at" "TEXT").notNull.stamped,
      col "result_json" "TEXT"]
    checks := [⟨"status", ["PENDING", "QUEUED", "RUNNING", "INTERRUPTED", "PAUSED_FOR_HITL",
      "COMPLETED", "PARTIAL", "PENDING_CALLBACK", "FAILED", "ABANDONED", "CANCELLING",
      "SKIPPED"]⟩]
  }
  indexes := [
    ⟨false, "idx_jobs_session_status", [.column "session_id", .column "status"]⟩]

def jobItems : TableDdl where
  ifNotExists := false
  schema := {
    columns := [
      (col "item_id" "INTEGER").keyed 1,
      (col "job_id" "TEXT").notNull,
      col "item_metadata" "TEXT",
      (col "status" "TEXT").notNull.defaultText "PENDING",
      col "input_data" "TEXT",
      col "output_data" "TEXT",
      (col "updated_at" "TEXT").notNull.stamped]
    checks := [⟨"status", ["PENDING", "RUNNING", "COMPLETED", "FAILED", "SKIPPED"]⟩]
    foreignKeys := [⟨"job_id", "jobs", "job_id"⟩]
  }
  indexes := [
    ⟨false, "idx_job_items_job_id", [.column "job_id", .column "status"]⟩,
    ⟨false, "idx_job_items_metadata", [.column "job_id", .expr "json_extract(item_metadata,
      '$.step')", .expr "json_extract(item_metadata, '$.is_top10')",
      .expr "json_extract(item_metadata, '$.ulid')"]⟩]

def broadcastBatches : TableDdl where
  ifNotExists := false
  schema := {
    columns := [
      (col "batch_id" "TEXT").keyed 1,
      (col "target_site" "TEXT").notNull,
      (col "article_count" "INTEGER").notNull.defaultInt 0,
      (col "top10_count" "INTEGER").notNull.defaultInt 0,
      (col "status" "TEXT").notNull.defaultText "PENDING",
      col "source_job_id" "TEXT",
      (col "content_hash" "TEXT").notNull.defaultText "",
      (col "created_at" "TEXT").notNull.stamped,
      (col "updated_at" "TEXT").notNull.stamped]
    checks := [⟨"status", ["PENDING", "PUBLISHING", "PARTIAL", "COMPLETED", "FAILED"]⟩]
  }
  indexes := [
    ⟨false, "idx_broadcast_batches_status", [.column "status"]⟩]

def broadcastDetails : TableDdl where
  ifNotExists := false
  schema := {
    columns := [
      (col "detail_id" "INTEGER").keyed 1,
      (col "batch_id" "TEXT").notNull,
      (col "article_id" "TEXT").notNull,
      (col "is_top10" "INTEGER").notNull.defaultInt 0,
      col "top10_rank" "INTEGER",
      (col "publish_status" "TEXT").notNull.defaultText "PENDING",
      col "translated_title" "TEXT",
      col "translated_summary" "TEXT",
      col "translated_conclusion" "TEXT",
      (col "content_hash" "TEXT").notNull.defaultText "",
      (col "created_at" "TEXT").notNull.stamped,
      (col "updated_at" "TEXT").notNull.stamped]
    uniques := [["batch_id", "article_id"]]
    checks := [⟨"publish_status", ["PENDING", "TRANSLATING", "PUBLISHED_BRIEFING",
      "PUBLISHED_ARCHIVE", "FAILED", "SKIPPED"]⟩]
    foreignKeys := [⟨"batch_id", "broadcast_batches", "batch_id"⟩, ⟨"article_id",
      "scraped_articles", "id"⟩]
  }
  indexes := [
    ⟨false, "idx_broadcast_details_batch", [.column "batch_id", .column "publish_status"]⟩,
    ⟨false, "idx_broadcast_details_article", [.column "article_id"]⟩,
    ⟨false, "idx_broadcast_details_top10", [.column "batch_id", .column "is_top10"]⟩]

def scrapedArticles : TableDdl where
  ifNotExists := true
  schema := {
    columns := [
      ((col "id" "TEXT").keyed 1).notNull,
      (col "vec_rowid" "INTEGER").notNull,
      (col "url" "TEXT").notNull,
      col "title" "TEXT",
      col "conclusion" "TEXT",
      col "summary" "TEXT",
      (col "metadata_json" "TEXT").notNull.defaultText "\x7b\x7d",
      (col "embedding_status" "TEXT").notNull.defaultText "PENDING",
      (col "content_hash" "TEXT").notNull.defaultText "",
      (col "scraped_at" "TEXT").notNull.stamped,
      (col "updated_at" "TEXT").notNull.stamped]
    uniques := [["url"]]
    checks := [⟨"embedding_status", ["PENDING", "EMBEDDED", "SKIPPED"]⟩]
  }
  indexes := [
    ⟨true, "idx_scraped_articles_url", [.column "url"]⟩,
    ⟨true, "idx_scraped_articles_status", [.column "embedding_status"]⟩,
    ⟨true, "idx_scraped_articles_vec_rowid", [.column "vec_rowid"]⟩]

def scrapedArticlesVecBackup : TableDdl where
  ifNotExists := true
  schema := {
    columns := [
      (col "rowid" "INTEGER").keyed 1,
      (col "article_id" "TEXT").notNull,
      (col "embedding" "BLOB").notNull,
      (col "hashed_at" "TEXT").notNull.stamped]
    foreignKeys := [⟨"article_id", "scraped_articles", "id"⟩]
  }
  indexes := [
    ⟨true, "idx_vec_backup_article", [.column "article_id"]⟩]

def snFilings : TableDdl where
  ifNotExists := true
  schema := {
    columns := [
      (col "filing_id" "TEXT").keyed 1,
      (col "ticker" "TEXT").notNull,
      (col "form" "TEXT").notNull,
      (col "filing_date" "TEXT").notNull,
      (col "accession_no" "TEXT").notNull,
      (col "period_of_report" "TEXT").notNull.defaultText "",
      (col "company_name" "TEXT").notNull.defaultText "",
      (col "cik" "INTEGER").notNull.defaultInt 0,
      (col "fiscal_year_end_month" "INTEGER").notNull.defaultInt 12,
      (col "quarter" "INTEGER").notNull.defaultInt 0,
      (col "year" "INTEGER").notNull.defaultInt 0,
      (col "content_hash" "TEXT").notNull.defaultText "",
      (col "created_at" "TEXT").notNull.stamped,
      (col "updated_at" "TEXT").notNull.stamped]
    uniques := [["accession_no"]]
  }
  indexes := [
    ⟨true, "idx_sn_filings_ticker", [.column "ticker", .column "form"]⟩,
    ⟨true, "idx_sn_filings_quarter", [.column "ticker", .column "quarter", .column "year"]⟩]

def snNotes : TableDdl where
  ifNotExists := true
  schema := {
    columns := [
      (col "note_id" "TEXT").keyed 1,
      (col "filing_id" "TEXT").notNull,
      (col "ticker" "TEXT").notNull,
      (col "form" "TEXT").notNull,
      (col "accession_no" "TEXT").notNull,
      (col "note_number" "INTEGER").notNull,
      (col "title" "TEXT").notNull.defaultText "",
      (col "short_name" "TEXT").notNull.defaultText "",
      (col "narrative_text" "TEXT").notNull.defaultText "",
      (col "narrative_hash" "TEXT").notNull.defaultText "",
      (col "expands" "TEXT").notNull.defaultText "[]",
      (col "expands_statements" "TEXT").notNull.defaultText "[]",
      (col "table_count" "INTEGER").notNull.defaultInt 0,
      (col "details_count" "INTEGER").notNull.defaultInt 0,
      (col "quarter" "INTEGER").notNull.defaultInt 0,
      (col "year" "INTEGER").notNull.defaultInt 0,
      (col "quarterly_status" "TEXT").notNull.defaultText "",
      (col "version" "INTEGER").notNull.defaultInt 1,
      (col "content_hash" "TEXT").notNull.defaultText "",
      (col "created_at" "TEXT").notNull.stamped,
      (col "updated_at" "TEXT").notNull.stamped]
    foreignKeys := [⟨"filing_id", "sn_filings", "filing_id"⟩]
  }
  indexes := [
    ⟨true, "idx_sn_notes_filing", [.column "filing_id"]⟩,
    ⟨true, "idx_sn_notes_ticker_quarter", [.column "ticker", .column "quarter", .column "year"]⟩]

def snDetailRegistry : TableDdl where
  ifNotExists := true
  schema := {
    columns := [
      (col "registry_id" "TEXT").keyed 1,
      (col "ticker" "TEXT").notNull,
      (col "detail_table_name" "TEXT").notNull,
      (col "source_title" "TEXT").notNull.defaultText "",
      (col "source_note_number" "INTEGER").notNull.defaultInt 0,
      (col "source_accession_no" "TEXT").notNull.defaultText "",
      (col "role_or_type" "TEXT").notNull.defaultText "",
      (col "available_concepts" "TEXT").notNull.defaultText "[]",
      (col "tidy_schema_version" "INTEGER").notNull.defaultInt 1,
      (col "row_count" "INTEGER").notNull.defaultInt 0,
      (col "quarter" "INTEGER").notNull.defaultInt 0,
      (col "year" "INTEGER").notNull.defaultInt 0,
      (col "quarterly_status" "TEXT").notNull.defaultText "",
      (col "content_hash" "TEXT").notNull.defaultText "",
      (col "created_at" "TEXT").notNull.stamped,
      (col "updated_at" "TEXT").notNull.stamped]
  }
  indexes := [
    ⟨true, "idx_sn_detail_registry_ticker", [.column "ticker", .column "detail_table_name"]⟩,
    ⟨true, "idx_sn_detail_registry_quarter", [.column "ticker", .column "quarter",
      .column "year"]⟩]

def snNoteDetails : TableDdl where
  ifNotExists := true
  schema := {
    columns := [
      (col "detail_id" "TEXT").keyed 1,
      (col "accession_no" "TEXT").notNull,
      (col "note_number" "INTEGER").notNull,
      (col "detail_index" "INTEGER").notNull.defaultInt 0,
      (col "ticker" "TEXT").notNull,
      (col "form" "TEXT").notNull,
      (col "concept" "TEXT").notNull.defaultText "",
      (col "label" "TEXT").notNull.defaultText "",
      (col "standard_concept" "TEXT").notNull.defaultText "",
      (col "level" "INTEGER").notNull.defaultInt 0,
      (col "abstract" "TEXT").notNull.defaultText "False",
      (col "dimension" "TEXT").notNull.defaultText "False",
      (col "is_breakdown" "TEXT").notNull.defaultText "False",
      (col "dimension_axis" "TEXT").notNull.defaultText "",
      (col "dimension_member" "TEXT").notNull.defaultText "",
      (col "dimension_member_label" "TEXT").notNull.defaultText "",
      (col "dimension_label" "TEXT").notNull.defaultText "",
      (col "balance" "TEXT").notNull.defaultText "",
      (col "weight" "TEXT").notNull.defaultText "",
      (col "preferred_sign" "TEXT").notNull.defaultText "",
      (col "parent_concept" "TEXT").notNull.defaultText "",
      (col "parent_abstract_concept" "TEXT").notNull.defaultText "",
      (col "period_raw" "TEXT").notNull.defaultText "",
      (col "period_end_date" "TEXT").notNull,
      (col "period_type" "TEXT").notNull,
      (col "value" "TEXT").notNull.defaultText "",
      (col "row_order" "INTEGER").notNull.defaultInt 0,
      (col "content_hash" "TEXT").notNull.defaultText "",
      (col "extracted_at" "TEXT").notNull.stamped,
      (col "created_at" "TEXT").notNull.stamped,
      (col "updated_at" "TEXT").notNull.stamped]
    foreignKeys := [⟨"accession_no", "sn_filings", "accession_no"⟩]
  }
  indexes := [
    ⟨true, "idx_sn_note_details_ticker_period", [.column "ticker", .column "period_type",
      .column "period_end_date"]⟩,
    ⟨true, "idx_sn_note_details_concept", [.column "concept", .column "period_end_date"]⟩,
    ⟨true, "idx_sn_note_details_accession", [.column "accession_no", .column "note_number"]⟩]

def syncLedger : TableDdl where
  ifNotExists := true
  schema := {
    columns := [
      (col "operation_id" "TEXT").keyed 1,
      (col "table_name" "TEXT").notNull,
      (col "direction" "TEXT").notNull,
      (col "row_count" "INTEGER").notNull.defaultInt 0,
      (col "state" "TEXT").notNull.defaultText "PENDING",
      col "started_at" "TEXT",
      col "completed_at" "TEXT",
      col "error_message" "TEXT",
      (col "created_at" "TEXT").notNull.stamped]
    checks := [⟨"direction", ["LOCAL_TO_CLOUD", "CLOUD_TO_LOCAL", "BIDIRECTIONAL"]⟩,
      ⟨"state", ["PENDING", "IN_PROGRESS", "COMPLETED", "FAILED"]⟩]
  }

def deadLetterQueue : TableDdl where
  ifNotExists := true
  schema := {
    columns := [
      (col "dlq_id" "TEXT").keyed 1,
      (col "table_name" "TEXT").notNull,
      (col "row_id" "TEXT").notNull,
      (col "row_data" "TEXT").notNull,
      (col "error_message" "TEXT").notNull,
      (col "created_at" "TEXT").notNull.stamped]
  }

def sfTickers : TableDdl where
  ifNotExists := true
  schema := {
    columns := [
      (col "ticker" "TEXT").keyed 1,
      (col "company_name" "TEXT").notNull.defaultText "",
      (col "cik" "INTEGER").notNull.defaultInt 0,
      (col "fiscal_year_end_month" "INTEGER").notNull.defaultInt 12,
      (col "fiscal_year_end_date" "TEXT").notNull.defaultText "",
      (col "latest_quarter" "TEXT").notNull.defaultText "",
      (col "latest_extraction_at" "TEXT").notNull.defaultText "",
      (col "content_hash" "TEXT").notNull.defaultText "",
      (col "created_at" "TEXT").notNull.stamped,
      (col "updated_at" "TEXT").notNull.stamped]
  }
  indexes := [
    ⟨true, "idx_sf_tickers_cik", [.column "cik"]⟩]

def sfQuarterlyFacts : TableDdl where
  ifNotExists := true
  schema := {
    columns := [
      ((col "ticker" "TEXT").keyed 1).notNull,
      ((col "statement_type" "TEXT").keyed 2).notNull,
      ((col "concept" "TEXT").keyed 3).notNull,
      (col "label" "TEXT").notNull.defaultText "",
      ((col "quarter" "TEXT").keyed 4).notNull,
      (col "period_end" "TEXT").notNull.defaultText "",
      (col "fiscal_period" "TEXT").notNull.defaultText "",
      (col "fiscal_year" "INTEGER").notNull.defaultInt 0,
      (col "numeric_value" "TEXT").notNull.defaultText "",
      (col "unit" "TEXT").notNull.defaultText "USD",
      (col "period_type" "TEXT").notNull.defaultText "duration",
      (col "depth" "INTEGER").notNull.defaultInt 0,
      (col "is_total" "INTEGER").notNull.defaultInt 0,
      (col "concept_order" "INTEGER").notNull.defaultInt 0,
      (col "content_hash" "TEXT").notNull.defaultText "",
      (col "extracted_at" "TEXT").notNull.stamped,
      (col "created_at" "TEXT").notNull.stamped,
      (col "updated_at" "TEXT").notNull.stamped]
    foreignKeys := [⟨"ticker", "sf_tickers", "ticker"⟩]
  }
  indexes := [
    ⟨true, "idx_sf_facts_ticker_stmt", [.column "ticker", .column "statement_type"]⟩,
    ⟨true, "idx_sf_facts_ticker_quarter", [.column "ticker", .column "quarter",
      .column "statement_type"]⟩,
    ⟨true, "idx_sf_facts_concept", [.column "concept", .column "ticker"]⟩]

/-- The tables of the operational database, in the order of the registry. -/
def allTables : List (String × TableDdl) :=
  [("jobs", jobs), ("job_items", jobItems), ("broadcast_batches", broadcastBatches),
    ("broadcast_details", broadcastDetails), ("scraped_articles", scrapedArticles),
    ("scraped_articles_vec_backup", scrapedArticlesVecBackup), ("sn_filings", snFilings),
    ("sn_notes", snNotes), ("sn_detail_registry", snDetailRegistry),
    ("sn_note_details", snNoteDetails), ("sync_ledger", syncLedger),
    ("dead_letter_queue", deadLetterQueue), ("sf_tickers", sfTickers),
    ("sf_quarterly_facts", sfQuarterlyFacts)]

/-- The tables that are backed up, parents before children. -/
def persistedTables : List String :=
  ["scraped_articles", "scraped_articles_vec_backup", "broadcast_batches", "broadcast_details",
    "sn_filings", "sn_notes", "sn_detail_registry", "sn_note_details", "sf_tickers",
    "sf_quarterly_facts"]

/-- The vector table, an ordinary one where the extension is missing. -/
def scrapedArticlesVec (sqliteVecAvailable : Bool) : TableDdl where
  ifNotExists := true
  schema :=
    if sqliteVecAvailable then { columns := [col "embedding" "float[1024]"], module := some "vec0" }
    else { columns := [(col "rowid" "INTEGER").keyed 1, col "embedding" "BLOB"] }

def isVirtual (d : TableDdl) : Bool := d.schema.module.isSome

/-- The backed-up tables and then the vector table, with their scripts. -/
def getExpectedSqliteTables (sqliteVecAvailable : Bool) : List (String × TableDdl) :=
  (persistedTables.filterMap fun t => (allTables.lookup t).map fun d => (t, d)) ++
    [("scraped_articles_vec", scrapedArticlesVec sqliteVecAvailable)]

end Schemas
