import FoodTable.Benchmark.Duration
import FoodTable.Benchmark.Report
import FoodTable.Main
import FoodTable.Proofs.Benchmark.Report
import FoodTable.Proofs.Benchmark.Strides
import FoodTable.Proofs.Cell.Forms
import FoodTable.Proofs.Cell.LeadingNumber
import FoodTable.Proofs.Dataset.Faults
import FoodTable.Proofs.Dataset.Lookup
import FoodTable.Proofs.Dataset.NamesAndColumns
import FoodTable.Proofs.Food.Intersection
import FoodTable.Proofs.Food.Search
import FoodTable.Proofs.Order.ExactOrder
import FoodTable.Proofs.Order.Passes
import FoodTable.Proofs.Query.Addressing
import FoodTable.Proofs.Query.Categories
import FoodTable.Proofs.Query.Columns
import FoodTable.Proofs.Query.Conditions
import FoodTable.Proofs.Query.Detail
import FoodTable.Proofs.Query.Limits
import FoodTable.Proofs.Query.OrderValues
import FoodTable.Proofs.Query.PlainPipeline
import FoodTable.Proofs.Query.Printing
import FoodTable.Proofs.Query.RowOrder
import FoodTable.Proofs.Query.Spelling
import FoodTable.Proofs.Query.Steps
import FoodTable.Proofs.Query.Thresholds
import FoodTable.Proofs.Query.Validity
import FoodTable.Proofs.Query.Writing
import FoodTable.Proofs.Service.Answers
import FoodTable.Proofs.Service.PageBodies
import FoodTable.Proofs.Service.Pairs
import FoodTable.Proofs.Service.PublishedTable
import FoodTable.Service.Basic
import FoodTable.Settings
