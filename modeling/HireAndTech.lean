import HireAndTech.Auth.KeyCache
import HireAndTech.Auth.Verifier
import HireAndTech.Base.Assignments
import HireAndTech.Base.FirstSeen
import HireAndTech.Base.Overrides
import HireAndTech.Base.Paging
import HireAndTech.Base.RoundRobin
import HireAndTech.Base.Transaction
import HireAndTech.Base.Uuid
import HireAndTech.Catalogue.Activity
import HireAndTech.Catalogue.AdminJobs
import HireAndTech.Catalogue.Backfill
import HireAndTech.Catalogue.Coherence
import HireAndTech.Catalogue.Constraints
import HireAndTech.Catalogue.ContentHash
import HireAndTech.Catalogue.Deduplication
import HireAndTech.Catalogue.DualWrite
import HireAndTech.Catalogue.FreeText
import HireAndTech.Catalogue.Freshness
import HireAndTech.Catalogue.Graph
import HireAndTech.Catalogue.Ingestion
import HireAndTech.Catalogue.LastSeen
import HireAndTech.Catalogue.LastSupplied
import HireAndTech.Catalogue.Machine
import HireAndTech.Catalogue.Merging
import HireAndTech.Catalogue.Migration
import HireAndTech.Catalogue.Normalization
import HireAndTech.Catalogue.Presentation
import HireAndTech.Catalogue.Providers
import HireAndTech.Catalogue.Query
import HireAndTech.Catalogue.Redelivery
import HireAndTech.Catalogue.Rows
import HireAndTech.Catalogue.Tables
import HireAndTech.Catalogue.Timestamps
import HireAndTech.Catalogue.Transactions
import HireAndTech.Catalogue.Urls
import HireAndTech.Collection.Cadence
import HireAndTech.Collection.Coordinator
import HireAndTech.Collection.Isolation
import HireAndTech.Collection.Rotation
import HireAndTech.Collection.Scheduler
import HireAndTech.Collection.Skipping
import HireAndTech.Collection.Targets
import HireAndTech.Extraction.EmploymentType
import HireAndTech.Extraction.Experience
import HireAndTech.Extraction.Requirements
import HireAndTech.Extraction.Skills
import HireAndTech.Extraction.Stability
import HireAndTech.Extraction.Titles
import HireAndTech.Extraction.WellFormed
import HireAndTech.Interleaving.Program
import HireAndTech.Interleaving.RelyGuarantee
import HireAndTech.Leasing.Keys
import HireAndTech.Leasing.Lease
import HireAndTech.Network.IpAddress
import HireAndTech.Network.Mapped
import HireAndTech.Queue.Locks
import HireAndTech.Queue.Overlap
import HireAndTech.Queue.Scrape
import HireAndTech.Relational.Query
import HireAndTech.Relational.Stamps
import HireAndTech.Relational.Table
import HireAndTech.Relational.Versions
import HireAndTech.Resumes.Calls
import HireAndTech.Resumes.Commits
import HireAndTech.Resumes.Compensation
import HireAndTech.Resumes.Constraints
import HireAndTech.Resumes.Credit
import HireAndTech.Resumes.Dangling
import HireAndTech.Resumes.Execution
import HireAndTech.Resumes.Isolation
import HireAndTech.Resumes.LatestProfile
import HireAndTech.Resumes.Machine
import HireAndTech.Resumes.Orphans
import HireAndTech.Resumes.Parser
import HireAndTech.Resumes.Protocol
import HireAndTech.Resumes.Retirement
import HireAndTech.Resumes.Service
import HireAndTech.Resumes.Tables
import HireAndTech.Resumes.Validation
import HireAndTech.Runs.Attempts
import HireAndTech.Runs.Partial
import HireAndTech.Salaries.Bounds
import HireAndTech.Salaries.Dice
import HireAndTech.Salaries.Digits
import HireAndTech.Salaries.Parser
import HireAndTech.Salaries.Reading
import HireAndTech.Search.Absorbing
import HireAndTech.Search.Execution
import HireAndTech.Search.Machine
import HireAndTech.Search.Matching
import HireAndTech.Search.Protocol
import HireAndTech.Search.Recommendations
import HireAndTech.Search.Requests
import HireAndTech.Search.ResultPages
import HireAndTech.Search.Scoring
import HireAndTech.Security.Admission
import HireAndTech.Security.BodyLimit
import HireAndTech.Security.MappedNetworks
import HireAndTech.Security.RateLimit
import HireAndTech.Security.Redaction
import HireAndTech.Security.Resolver
import HireAndTech.Security.RetryAfter
import HireAndTech.Security.Rules
import HireAndTech.Security.Service
import HireAndTech.Semaphores.Semaphore
import HireAndTech.Sources.Dice.Conversions
import HireAndTech.Sources.Dice.Details
import HireAndTech.Sources.Dice.Discovery
import HireAndTech.Sources.Dice.Flight
import HireAndTech.Sources.Dice.Listings
import HireAndTech.Sources.Dice.Postings
import HireAndTech.Sources.Dice.Ranges
import HireAndTech.Sources.Dice.Values
import HireAndTech.Sources.Glassdoor
import HireAndTech.Sources.LinkedIn.Cards
import HireAndTech.Sources.LinkedIn.Collector
import HireAndTech.Sources.LinkedIn.Postings
import HireAndTech.Text.Captures
import HireAndTech.Text.Enclosed
import HireAndTech.Text.Forms
import HireAndTech.Text.FromIsoFormat
import HireAndTech.Text.Groups
import HireAndTech.Text.IsoFormat
import HireAndTech.Text.Json
import HireAndTech.Text.JsonDecoder
import HireAndTech.Text.Queries
import HireAndTech.Text.Regex
import HireAndTech.Text.Spans
import HireAndTech.Text.Suffixes
import HireAndTech.Text.UrlJoin
import HireAndTech.Text.Urls
import HireAndTech.Text.Words
